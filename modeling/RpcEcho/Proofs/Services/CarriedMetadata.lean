import RpcEcho.Proofs.Call.Contents
import RpcEcho.Proofs.Header.Projection
import RpcEcho.Proofs.Services.Echo
import RpcEcho.Proofs.Services.Failures

/-!
# The metadata that every echo carries

Each method of the echo service puts the metadata of its request into each message that it gives.
So a caller finds in every message of every response what the headers of the request project to,
whatever the method, the format and the messages are.
-/

namespace RpcEcho

open Api

namespace Handler

variable {ι ο : Type} {allowed : ο → Prop}

theorem gives_looking {looks : Bool} {rest : Handler ι ο Outcome} (gives : rest.Gives allowed) :
    (looking looks rest).Gives allowed := by
  cases looks with
  | false => exact gives
  | true =>
      intro done?
      cases done? with
      | none => exact gives
      | some done => exact trivial

theorem gives_answering {answer : ι → ο} (each : ∀ request, allowed (answer request))
    (looksFirst : Bool) (most : Nat) : (answering looksFirst answer most).Gives allowed := by
  induction most with
  | zero => exact trivial
  | succ most inductionHypothesis =>
      apply gives_looking
      intro result
      match result with
      | .error status | .ok none => exact trivial
      | .ok (some request) =>
          apply gives_looking
          refine ⟨each request, fun accepted => ?_⟩
          cases accepted with
          | error status => exact trivial
          | ok _ => exact inductionHypothesis

end Handler

namespace Echo

open Handler

/-- A response carries some metadata. -/
def Carries (metadata : Metadata) (response : EchoResponse) : Prop := response.metadata = metadata

variable (metadata : Metadata)

theorem isReply_echo (request : EchoRequest) :
    (echo metadata request).EndsIn (IsReply (Carries metadata)) := isReply_ok rfl

theorem isReply_echoWithDelay (request : EchoWithDelayRequest) :
    (echoWithDelay metadata request).EndsIn (IsReply (Carries metadata)) := by
  unfold echoWithDelay
  split
  · refine endsIn_bind.mpr fun slept => ?_
    cases slept with
    | error done => exact isReply_error done.code_ne_ok
    | ok _ => exact isReply_ok rfl
  · exact isReply_ok rfl

theorem isReply_echoError (request : EchoErrorRequest) :
    (echoError request).EndsIn (IsReply (Carries metadata)) :=
  isReply_error (requestedFailure_code_ne_ok request)

theorem isReply_collect (came : List String) (most : Nat) :
    (collect metadata came most).EndsIn (IsReply (Carries metadata)) := by
  induction most generalizing came with
  | zero => exact isReply_ok rfl
  | succ most inductionHypothesis =>
      refine endsIn_bind.mpr fun result honest => ?_
      match result, honest with
      | .error status, honest => exact isReply_error (honest status rfl)
      | .ok none, _ => exact isReply_ok rfl
      | .ok (some request), _ => exact inductionHypothesis _

theorem gives_sendRest (text : String) (count pause left : Nat) :
    (sendRest metadata text count pause left).Gives (Carries metadata) := by
  induction left with
  | zero => exact trivial
  | succ left inductionHypothesis =>
      unfold sendRest
      dsimp only
      split
      case' isTrue =>
        refine gives_bind (fun _ => trivial) fun slept => ?_
        rcases slept with done | _
        · exact trivial
      -- A message is sent alike after a pause and without one.
      all_goals
        refine gives_bind (fun _ => trivial) fun done? => ?_
        cases done? with
        | some done => exact trivial
        | none =>
            refine gives_bind ⟨rfl, fun _ => trivial⟩ fun accepted => ?_
            cases accepted with
            | error status => exact trivial
            | ok _ => exact inductionHypothesis

theorem gives_bidirectionalStream (most : Nat) :
    (bidirectionalStream metadata most).Gives (Carries metadata) := by
  have each (request : EchoRequest) : Carries metadata ⟨request.message, metadata⟩ := rfl
  rw [bidirectionalStream_eq]
  exact gives_answering each true most

end Echo

namespace Server

variable {server : Server} {request : Request} {method : Method} {wire : WireFormat}
  {transcript : Transcript} {payload : Bytes}

/-- A method of the echo service gives messages with the metadata of the call only. -/
theorem writes_of_call {call : Call} (isListed : method ∈ Service.echo.methods)
    (accepted : method.kind.accepts call.wire = true)
    (answered : server.call method call = some transcript)
    (hasMessage : transcript.HasMessage call.wire payload) :
    call.wire.codec.Writes (Echo.Carries call.metadata) payload := by
  have enveloped (streams : method.kind ≠ .unary) : call.wire.isEnveloped = true :=
    MethodKind.isEnveloped_of_accepts streams accepted
  cases method with
  | echo => exact Call.gives_of_unary (Echo.isReply_echo _) answered hasMessage
  | echoWithDelay => exact Call.gives_of_unary (Echo.isReply_echoWithDelay _) answered hasMessage
  | echoError => exact Call.gives_of_unary (Echo.isReply_echoError _) answered hasMessage
  | serverStream =>
      exact Call.gives_of_serverStreaming (enveloped (by decide))
        (fun _ => Echo.gives_sendRest _ _ _ _ _) answered hasMessage
  | clientStream =>
      exact Call.gives_of_respond (Exchange.run_endsIn _ (Echo.isReply_collect _ _ _)) answered
        hasMessage
  | bidirectionalStream =>
      exact Call.gives_of_bidiStreaming (enveloped (by decide))
        (Echo.gives_bidirectionalStream _ _) answered hasMessage
  | check | watch | reflectionInfo => exact absurd isListed (by decide)

/-- What headers project to, and what every message of every response of the echo service carries:
the same, in some order. -/
theorem projects_headers (server : Server) {request : Request}
    (wellFormed : request.headers.IsWellFormed) :
    Metadata.Projects request.headers (Metadata.ofHeaders request.headers) ∧
      ∀ (method : Method) (wire : WireFormat) (drainAt : Option Nat) (transcript : Transcript),
        server.route request = .accepted .echo method wire →
          server.answer drainAt request = some transcript →
            ∀ payload, transcript.HasMessage wire payload →
              payload.length < Proto.Varint.bound →
                ∃ response : EchoResponse, Payload.decode wire.codec payload = .ok response ∧
                  Metadata.Projects request.headers response.metadata := by
  refine ⟨Metadata.projects_of_perm wellFormed (List.Perm.refl _), ?_⟩
  intro method wire drainAt transcript routed answered payload hasMessage fits
  obtain ⟨name, _, _, _, _, isMethod, accepted⟩ := route_eq_accepted_iff.mp routed
  rw [Server.answer, routed] at answered
  obtain ⟨response, carries, encoded⟩ :=
    writes_of_call (List.mem_of_find?_eq_some isMethod) accepted answered hasMessage
  have carries : response.metadata = Metadata.ofHeaders request.headers := carries
  have distinct : (response.metadata.map Prod.fst).Nodup := by
    rw [carries]
    exact (Metadata.holdsExactly_ofHeaders wellFormed.distinct).distinct
  obtain ⟨metadata, permuted, decoded⟩ := decode_encode_response distinct encoded fits
  rw [carries] at permuted
  exact ⟨_, decoded, Metadata.projects_of_perm wellFormed permuted⟩

/-- Headers of a gRPC request with a note and with a value beyond ASCII. -/
def notedHeaders : Headers :=
  Headers.ofList [("content-type", Bytes.ofAscii "application/grpc"),
    ("te", Bytes.ofAscii "trailers"), ("x-note", Bytes.ofAscii "a"), ("x-d", [0xC3, 0xA9])]

/-- The echo of a request with these headers carries the note, and not the other value. -/
theorem projects_notedHeaders :
    notedHeaders.IsWellFormed ∧ notedHeaders.Tells "x-d" "é" ∧
      ∃ transcript payload,
        Server.answer ⟨{}⟩ none (Echo.hiRequest notedHeaders) = some transcript ∧
        transcript.HasMessage (.grpc .proto) payload ∧ payload.length < Proto.Varint.bound ∧
        ∃ response : EchoResponse, Payload.decode .proto payload = .ok response ∧
          ("x-note", "a") ∈ response.metadata ∧ "x-d" ∉ response.metadata.map Prod.fst := by
  have wellFormed : notedHeaders.IsWellFormed := by decide
  have accented : notedHeaders.HasFirst "x-d" [0xC3, 0xA9] := ⟨[], by decide⟩
  have asks : AsksEcho ⟨{}⟩ (Echo.hiRequest notedHeaders) (.grpc .proto) "hi" :=
    Echo.asksEcho_hiRequest wellFormed (by decide)
  have unlimited : Timeout.ofHeaders? (.grpc .proto) notedHeaders = none := by decide
  have inTime : (Echo.hiRequest notedHeaders).IsInTime (.grpc .proto) :=
    Request.isInTime_of_unlimited unlimited
  obtain ⟨time, answered⟩ := Echo.answer_eq_of_asks asks inTime none
  obtain ⟨payload, encoded⟩ : ∃ payload, Payload.encode .proto
      (⟨"hi", Metadata.ofHeaders notedHeaders⟩ : EchoResponse) = .ok payload := ⟨_, rfl⟩
  have hasMessage : (Transcript.ofResponse (Response.unary (.grpc .proto)
      (.ok (Echo.reply (Metadata.ofHeaders notedHeaders) "hi"))) time).HasMessage
        (.grpc .proto) payload := by
    have shape : Response.unary (.grpc .proto)
        (.ok (Echo.reply (Metadata.ofHeaders notedHeaders) "hi")) = _ :=
      Response.unary_of_encode encoded
    rw [shape]
    exact List.mem_cons_self
  have sameMetadata : Metadata.ofHeaders notedHeaders = Metadata.ofHeaders Echo.noteHeaders := by
    decide
  have short : payload.length < Proto.Varint.bound := by
    rw [sameMetadata] at encoded
    rw [Echo.length_of_encode_note (by decide) (by decide) encoded]
    decide
  obtain ⟨response, decoded, projects⟩ := (projects_headers ⟨{}⟩ wellFormed).2 .echo _ none _
    (Echo.route_of_asks asks) answered payload hasMessage short
  refine ⟨wellFormed, ⟨by decide, _, accented, by decide +kernel⟩, _, payload, answered,
    hasMessage, short, response, decoded, ?_, ?_⟩
  · refine (projects.shown.mem_iff _ _).mpr ⟨⟨by decide, Bytes.ofAscii "a", ⟨[], ?_⟩, ?_⟩, ?_⟩
    · decide
    · decide +kernel
    · decide
  · refine (projects.missing "x-d" (by decide)).mpr (.inr ⟨_, accented, fun text isText => ?_⟩)
    have isAccented : Utf8.decode? [0xC3, 0xA9] = some "é" := by decide +kernel
    cases isText.symm.trans isAccented
    decide

end Server

end RpcEcho
