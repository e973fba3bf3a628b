import RpcEcho.Proofs.Call.Reporting
import RpcEcho.Proofs.Services.Bidirectional
import RpcEcho.Proofs.Services.ServerStream

/-!
# No method tells a failure as success

Whatever a method does with a call: a status that its writer is given does not have the code of
success, whether it comes from the reader, from the handler, from the end of the call or from a
reply that cannot be written. So every caller can tell it from a success.

The methods enter only through what their handlers end in, one short lemma for each. Of all of them
only `Echo.requestedFailure` makes a status with a code that it is given, and there zero means
`unknown`.
-/

namespace RpcEcho

open Api

/-! ## What the handlers end in -/

section Handlers

open Handler

theorem Handler.endsIn_answering {ι ο : Type} (looksFirst : Bool) (answer : ι → ο) (most : Nat) :
    (answering looksFirst answer most).EndsIn IsHonest := by
  have looks (looks : Bool) {rest : Handler ι ο Outcome} (ends : rest.EndsIn IsHonest) :
      (looking looks rest).EndsIn IsHonest := by
    cases looks with
    | false => exact ends
    | true =>
        intro done?
        cases done? with
        | none => exact ends
        | some done => exact done.isHonest
  induction most with
  | zero => exact isHonest_ok _
  | succ most inductionHypothesis =>
      refine looks _ fun result honest => ?_
      match result, honest with
      | .error status, honest => exact honest.error
      | .ok none, _ => exact isHonest_ok _
      | .ok (some request), _ =>
          refine looks _ fun accepted honest => ?_
          cases accepted with
          | error status => exact honest.error
          | ok _ => exact inductionHypothesis

namespace Echo

theorem endsIn_echoWithDelay (metadata : Metadata) (request : EchoWithDelayRequest) :
    (echoWithDelay metadata request).EndsIn IsHonest := by
  unfold echoWithDelay
  split
  · refine endsIn_bind.mpr fun slept => ?_
    cases slept with
    | error done => exact done.isHonest
    | ok _ => exact isHonest_ok _
  · exact isHonest_ok _

theorem requestedFailure_code_ne_ok (request : EchoErrorRequest) :
    (requestedFailure request).code ≠ .ok := by
  change (if Code.ofNumber request.code = .ok then Code.unknown else Code.ofNumber request.code) ≠ _
  split
  · decide
  · assumption

theorem stopped_code_ne_ok (done : Done) : (stopped done).code ≠ .ok := by
  cases done <;> decide

theorem endsIn_sendRest (metadata : Metadata) (text : String) (count pause left : Nat) :
    (sendRest metadata text count pause left).EndsIn IsHonest := by
  have stops (done : Done) : IsHonest (.error (stopped done) : Outcome) :=
    isHonest_error_iff.mpr (stopped_code_ne_ok done)
  induction left with
  | zero => exact isHonest_ok _
  | succ left inductionHypothesis =>
      unfold sendRest
      dsimp only
      split
      case' isTrue =>
        refine endsIn_bind.mpr fun slept => ?_
        rcases slept with done | _
        · exact stops done
      -- A message is sent alike after a pause and without one.
      all_goals
        refine endsIn_bind.mpr fun done? => ?_
        cases done? with
        | some done => exact stops done
        | none =>
            refine endsIn_bind.mpr fun answer honest => ?_
            cases answer with
            | error status => exact honest.error
            | ok _ => exact inductionHypothesis

theorem endsIn_serverStream (metadata : Metadata) (request : ServerStreamRequest) :
    (serverStream metadata request).EndsIn IsHonest := endsIn_sendRest _ _ _ _ _

theorem endsIn_collect (metadata : Metadata) (came : List String) (most : Nat) :
    (collect metadata came most).EndsIn IsHonest := by
  induction most generalizing came with
  | zero => exact isHonest_ok _
  | succ most inductionHypothesis =>
      refine endsIn_bind.mpr fun result honest => ?_
      match result, honest with
      | .error status, honest => exact honest.error
      | .ok none, _ => exact isHonest_ok _
      | .ok (some request), _ => exact inductionHypothesis _

theorem endsIn_bidirectionalStream (metadata : Metadata) (most : Nat) :
    (bidirectionalStream metadata most).EndsIn IsHonest := by
  rw [bidirectionalStream_eq]
  exact endsIn_answering _ _ most

end Echo

theorem Reflector.endsIn_info (reflector : Reflector) (most : Nat) :
    (reflector.info most).EndsIn IsHonest := by
  rw [info_eq]
  exact endsIn_answering _ _ most

namespace Health

theorem endsIn_check (known : List String) (request : HealthCheckRequest) :
    (check known request).EndsIn IsHonest := by
  refine endsIn_bind.mpr fun isDraining => ?_
  change IsHonest (answer known isDraining request)
  unfold answer
  split
  · exact isHonest_ok _
  · exact isHonest_of _ _ (by decide)

theorem endsIn_watch (known : List String) (request : HealthCheckRequest) :
    (watch known request).EndsIn IsHonest := by
  refine endsIn_bind.mpr fun isDraining => ?_
  refine endsIn_bind.mpr fun accepted honest => ?_
  cases accepted with
  | error status => exact honest.error
  | ok _ =>
      refine endsIn_bind.mpr fun done => ?_
      cases done with
      | deadlineExceeded => exact Done.isHonest _
      | canceled =>
          dsimp only
          split
          · refine endsIn_bind.mpr fun isDraining => ?_
            cases isDraining with
            | false => exact isHonest_ok _
            | true => exact endsIn_bind.mpr fun answer honest => isHonest_ok _
          · exact isHonest_ok _

end Health

end Handlers

/-! ## All methods -/

namespace Server

/-- The status that the writer of a response is given, if a method makes a call fail. -/
def failure? (server : Server) (method : Method) (call : Call) : Option Status :=
  match method with
  | .echo => call.unaryFailure? (call.runUnary (Echo.echo call.metadata)).2
  | .echoWithDelay => call.unaryFailure? (call.runUnary (Echo.echoWithDelay call.metadata)).2
  | .echoError => call.unaryFailure? (call.runUnary Echo.echoError).2
  | .serverStream =>
    RpcEcho.failure? (call.runServerStreaming (Echo.serverStream call.metadata)).2
  | .clientStream =>
    call.unaryFailure?
      (call.startDraining.run (Echo.clientStream call.metadata call.messageBound)).2
  | .bidirectionalStream =>
    RpcEcho.failure?
      (call.runBidiStreaming (Echo.bidirectionalStream call.metadata call.messageBound)).2
  | .check => call.unaryFailure? (call.runUnary (Health.check server.serviceNames)).2
  | .watch => RpcEcho.failure? (call.runServerStreaming (Health.watch server.serviceNames)).2
  | .reflectionInfo =>
    RpcEcho.failure? (call.runBidiStreaming (server.reflector.info call.messageBound)).2

/-- The handlers of calls with many messages out, when a message was read or was none. -/
inductive Streams (server : Server) (metadata : Metadata) :
    {ι ο : Type} → Handler ι ο Outcome → Prop
  | serverStream (request : ServerStreamRequest) :
      Streams server metadata (Echo.serverStream metadata request)
  | bidirectionalStream (most : Nat) :
      Streams server metadata (Echo.bidirectionalStream metadata most)
  | watch (request : HealthCheckRequest) :
      Streams server metadata (Health.watch server.serviceNames request)
  | reflectionInfo (most : Nat) : Streams server metadata (server.reflector.info most)
  | unread {ι ο : Type} [Payload ι] (before after : Exchange) (status : Status)
      (failed : (before.readSingle : Exchange × Option (Except Status ι)) =
        (after, some (.error status))) :
      Streams server metadata (.finish (.error status) : Handler ι ο Outcome)

theorem Streams.endsIn {server : Server} {metadata : Metadata} {ι ο : Type}
    {handler : Handler ι ο Outcome} (streams : server.Streams metadata handler) :
    handler.EndsIn IsHonest := by
  cases streams with
  | serverStream request => exact Echo.endsIn_serverStream metadata request
  | bidirectionalStream most => exact Echo.endsIn_bidirectionalStream metadata most
  | watch request => exact Health.endsIn_watch _ request
  | reflectionInfo most => exact Reflector.endsIn_info _ most
  | unread before after status failed =>
      have honest := before.isHonest_readSingle (ι := ι)
      exact (honest (.error status) (congrArg Prod.snd failed)).error

/-- A method tells each failure that its writer is given. -/
theorem call_tells (server : Server) {method : Method} {call : Call}
    (accepted : method.kind.accepts call.wire = true) {status : Status}
    (fails : server.failure? method call = some status) :
    status.code ≠ .ok ∧ ∃ transcript, server.call method call = some transcript ∧
      transcript.TellsFailure call.wire status := by
  have enveloped (streams : method.kind ≠ .unary) : call.wire.isEnveloped = true :=
    MethodKind.isEnveloped_of_accepts streams accepted
  have unary {ι ο : Type} [Payload ι] [Payload ο]
      {handler : ι → Handler ι ο (Except Status (Reply ο))}
      (ends : ∀ request, (handler request).EndsIn IsHonest)
      (fails : call.unaryFailure? (call.runUnary handler).2 = some status) :
      status.code ≠ .ok ∧ ∃ transcript, call.unary handler = some transcript ∧
        transcript.TellsFailure call.wire status := by
    rw [Call.unary_eq]
    exact Call.respond_tells (call.isHonest_runUnary ends) fails
  cases method with
  | echo => exact unary (fun request => isHonest_ok _) fails
  | echoWithDelay => exact unary (Echo.endsIn_echoWithDelay call.metadata) fails
  | echoError =>
      have ends (request : EchoErrorRequest) : (Echo.echoError request).EndsIn IsHonest :=
        isHonest_error_iff.mpr (Echo.requestedFailure_code_ne_ok request)
      exact unary ends fails
  | serverStream =>
      exact Call.serverStreaming_tells (enveloped (by decide))
        (Echo.endsIn_serverStream call.metadata) fails
  | clientStream =>
      exact Call.respond_tells (Exchange.run_endsIn _ (Echo.endsIn_collect _ _ _)) fails
  | bidirectionalStream =>
      exact Call.bidiStreaming_tells (enveloped (by decide))
        (Echo.endsIn_bidirectionalStream _ _) fails
  | check => exact unary (Health.endsIn_check _) fails
  | watch =>
      exact Call.serverStreaming_tells (enveloped (by decide)) (Health.endsIn_watch _) fails
  | reflectionInfo =>
      exact Call.bidiStreaming_tells (enveloped (by decide))
        (Reflector.endsIn_info _ _) fails

end Server

/-! ## Failures on request -/

namespace Code

theorem number_le (code : Code) : code.number ≤ 16 := by
  cases code <;> decide

theorem number_ofNumber {value : Int} (isLeast : 0 ≤ value) (isMost : value ≤ 16) :
    ((ofNumber value).number : Int) = value := by
  have each : ∀ number : Fin 17, (ofNumber (number : Nat)).number = (number : Nat) := by decide
  obtain ⟨number, rfl⟩ := Int.eq_ofNat_of_zero_le isLeast
  exact congrArg Int.ofNat (each ⟨number, by omega⟩)

theorem ofNumber_of_outside {value : Int} (outside : value < 0 ∨ 16 < value) :
    ofNumber value = .unknown := by
  have isNone : (all.find? fun code => (code.number : Int) = value) = none := by
    refine List.find?_eq_none.mpr fun code _ isCode => ?_
    have same := of_decide_eq_true isCode
    have bound := code.number_le
    omega
  rw [ofNumber, isNone]
  rfl

end Code

namespace Echo

/-- A status is the one that a request for a failure asks for. A number of no failure means
`unknown`, and the words tell which number was meant. -/
structure IsRequested (request : EchoErrorRequest) (status : Status) : Prop where
  known : 1 ≤ request.code → request.code ≤ 16 → (status.code.number : Int) = request.code
  unknown : request.code < 1 ∨ 16 < request.code → status.code = .unknown
  details : request.details ≠ "" → status.message = some request.details
  noDetails : request.details = "" → ∃ number : Nat,
    status.message = some ("error with code " ++ number.repr ++ ": " ++ request.message) ∧
      (0 ≤ request.code ∧ request.code ≤ 16 → (number : Int) = request.code) ∧
        (request.code < 0 ∨ 16 < request.code → number = 2)

theorem isRequested_requestedFailure (request : EchoErrorRequest) :
    IsRequested request (requestedFailure request) := by
  have code : (requestedFailure request).code =
      if Code.ofNumber request.code = .ok then .unknown else Code.ofNumber request.code := rfl
  have message : (requestedFailure request).message =
      some (if request.details.isEmpty then "error with code " ++
        (Code.ofNumber request.code).number.repr ++ ": " ++ request.message
      else request.details) := rfl
  constructor
  · intro isLeast isMost
    have number := Code.number_ofNumber (by omega) isMost
    have notOk : Code.ofNumber request.code ≠ .ok := by
      intro isOk
      rw [isOk] at number
      change (0 : Int) = _ at number
      omega
    rw [code, if_neg notOk, number]
  · intro outside
    rw [code]
    by_cases isZero : request.code = 0
    · rw [isZero]
      rfl
    · rw [Code.ofNumber_of_outside (by omega)]
      rfl
  · intro given
    rw [message, if_neg (by simpa using given)]
  · intro missing
    refine ⟨(Code.ofNumber request.code).number, ?_, ?_, ?_⟩
    · rw [message, missing]
      rfl
    · intro ⟨isLeast, isMost⟩
      exact Code.number_ofNumber isLeast isMost
    · intro outside
      rw [Code.ofNumber_of_outside outside]
      rfl

/-- A call that asks for a failure fails so. -/
theorem failure?_echoError (server : Server) {call : Call} {after : Exchange}
    {request : EchoErrorRequest} (read : call.startApart.readSingle = (after, some (.ok request))) :
    server.failure? .echoError call = some (requestedFailure request) := by
  rw [Server.failure?, Call.unaryFailure?, Call.runUnary, read]
  rfl

end Echo

/-- No method tells a failure as success. The status that the writer of a response is given has the
code of a failure, and the response tells it, in each format that the method accepts. A call with
many messages out does so in every order of its steps, and whenever it is stopped. A call that asks
for a failure fails as it asks for. -/
theorem Server.failures_told (server : Server) :
    (∀ (method : Method) (call : Call), method.kind.accepts call.wire = true →
      ∀ status, server.failure? method call = some status →
        status.code ≠ .ok ∧ ∃ transcript, server.call method call = some transcript ∧
          transcript.TellsFailure call.wire status) ∧
    (∀ {ι ο : Type} [Payload ι] [Payload ο] (metadata : Metadata) (handler : Handler ι ο Outcome),
      server.Streams metadata handler → ∀ (exchange : Exchange) (caller : Caller) moves,
        let started := Streaming.start exchange caller handler
        started.CanTake moves → ∀ status, (started.run moves).outcome = some (.error status) →
          (started.run moves).TellsFailure status) ∧
    ∀ (call : Call) (after : Exchange) (request : EchoErrorRequest),
      call.startApart.readSingle = (after, some (.ok request)) →
        ∃ status, server.failure? .echoError call = some status ∧
          Echo.IsRequested request status := by
  refine ⟨?_, ?_, ?_⟩
  · intro method call accepted status fails
    exact server.call_tells accepted fails
  · intro ι ο _ _ metadata handler streams exchange caller moves started canTake status failed
    exact Streaming.tellsFailure_run streams.endsIn exchange caller canTake failed
  · intro call after request read
    exact ⟨_, Echo.failure?_echoError server read, Echo.isRequested_requestedFailure request⟩

/-- A call by gRPC that asks for a failure with the code of success. -/
def zeroCall : Call where
  wire := .grpc .proto
  headers := Headers.empty
  body := ⟨[.data [0, 0, 0, 0, 3, 10, 1, 97] 0], .complete⟩
  drainAt := none

theorem readSingle_zeroCall :
    ∃ after, zeroCall.startApart.readSingle =
      (after, some (.ok (⟨"a", 0, ""⟩ : EchoErrorRequest))) := by
  have decoded : Payload.decode .proto [10, 1, 97] = .ok (⟨"a", 0, ""⟩ : EchoErrorRequest) := by
    decide +kernel
  have whole : zeroCall.body.octets = (WireFormat.grpc .proto).single [10, 1, 97] := by decide
  refine Exchange.readSingle_of_open rfl rfl whole (by decide) decoded ⟨?_, Outbound.stays_unheard⟩
  decide

/-- The call for a failure with the code of success fails with the code two. A stream that is
cancelled before its first message fails too, and its caller has nothing but that. -/
theorem failures_told_zeroCall :
    (MethodKind.unary.accepts zeroCall.wire = true ∧
      ∃ status transcript, Server.failure? ⟨{}⟩ .echoError zeroCall = some status ∧
        status = ⟨.unknown, some "error with code 0: a"⟩ ∧
        Server.call ⟨{}⟩ .echoError zeroCall = some transcript ∧
        ∃ trailers number, (transcript.frames.map Prod.fst).getLast? = some (.trailers trailers) ∧
          0 < number ∧ trailers.values "grpc-status" = [Bytes.ofAscii (Nat.repr number)]) ∧
    ∃ status, ((Streaming.start zeroCall.startDraining {}
      (Echo.serverStream [] Echo.ticks)).run
        [.cancel, .go, .go, .go, .go, .read, .read]).TellsFailure status := by
  obtain ⟨unary, streaming, asked⟩ := Server.failures_told ⟨{}⟩
  constructor
  · obtain ⟨after, read⟩ := readSingle_zeroCall
    obtain ⟨status, fails, isRequested⟩ := asked _ _ _ read
    obtain ⟨_, transcript, answered, last, isLast, trailers, rfl, number, positive, told⟩ :=
      unary .echoError zeroCall rfl status fails
    obtain ⟨code, message⟩ := status
    obtain rfl : code = .unknown := isRequested.unknown (.inl (by decide))
    obtain ⟨meant, rfl, isMeant, _⟩ := isRequested.noDetails rfl
    obtain rfl : meant = 0 := Int.ofNat.inj (isMeant (by decide))
    exact ⟨rfl, _, transcript, fails, rfl, answered, trailers, number, isLast, positive, told⟩
  · refine ⟨_, streaming [] _ (.serverStream Echo.ticks) zeroCall.startDraining {} _ ?_
      (Echo.stopped .canceled) rfl⟩
    exact ⟨trivial, trivial, trivial, trivial, trivial, trivial, trivial, trivial⟩

end RpcEcho
