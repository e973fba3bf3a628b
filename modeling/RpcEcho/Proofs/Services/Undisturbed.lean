import RpcEcho.Proofs.Api.Replies
import RpcEcho.Proofs.Call.Draining
import RpcEcho.Proofs.Envelope.Framing
import RpcEcho.Proofs.Server.TokenForest
import RpcEcho.Server

/-!
# Calls that do not disturb each other

A request comes in the middle of a history: the server gives its call a token, and the call is told
when that token is cancelled and when the drain begins. `Server.callIn` is the call in its history.
Unless its own response is dropped, it is the call that `Server.call` describes, which knows of the
history only when the drain begins; so no call is disturbed by another one. A call with one message
in and one out is not disturbed by the drain either, unless it asks for the health of the whole
server, which is told as it is at that moment.
-/

namespace RpcEcho

open Api

/-! ## Calls from their start -/

namespace Call

variable {ι ο : Type} [Payload ι] [Payload ο]

/-- A call with one message in and one out, from its start. -/
def unaryFrom (start : Exchange) (handler : ι → Handler ι ο (Except Status (Reply ο))) :
    Option Transcript :=
  match (start.readSingle : Exchange × Option (Except Status ι)) with
  | (_, none) => none
  | (exchange, some (.error status)) =>
    respond start.wire (exchange, some (.error status : Except Status (Reply ο)))
  | (exchange, some (.ok request)) => respond start.wire (exchange.run (handler request))

/-- A call with one message in and many out, from its start. -/
def serverStreamingFrom (start : Exchange) (handler : ι → Handler ι ο Outcome) :
    Option Transcript :=
  match (start.readSingle : Exchange × Option (Except Status ι)) with
  | (_, none) => none
  | (exchange, some (.error status)) =>
    some (Transcript.ofStream start.wire exchange.now
      ((listen exchange).conclude (.error status)).outbound)
  | (exchange, some (.ok request)) =>
    some (Transcript.ofStream start.wire exchange.now
      ((listen exchange).runStream (handler request)).outbound)

/-- A call with many messages in and one out, from its start. -/
def clientStreamingFrom (start : Exchange) (handler : Handler ι ο (Except Status (Reply ο))) :
    Option Transcript :=
  respond start.wire (start.run handler)

/-- A call with many messages in and many out, from its start. -/
def bidiStreamingFrom (start : Exchange) (handler : Handler ι ο Outcome) : Option Transcript :=
  some (Transcript.ofStream start.wire 0 ((listen start).runStream handler).outbound)

/-- A handler that does not care for the drain is not disturbed by it. -/
theorem unaryFrom_drainingAt {start : Exchange}
    {handler : ι → Handler ι ο (Except Status (Reply ο))}
    (ignores : ∀ read request, start.readSingle = (read, some (.ok request)) →
      (handler request).IgnoresDrain)
    (drainAt : Option Nat) :
    unaryFrom (start.drainingAt drainAt) handler = unaryFrom start handler := by
  unfold unaryFrom
  rw [Exchange.readSingle_drainingAt, Exchange.wire_drainingAt]
  generalize (start.readSingle : Exchange × Option (Except Status ι)) = read at ignores
  obtain ⟨exchange, outcome⟩ := read
  rcases outcome with _ | _ | request
  · rfl
  · rfl
  · simp only [Exchange.alsoDraining]
    rw [Exchange.run_drainingAt (ignores exchange request rfl)]
    obtain ⟨after, result⟩ := exchange.run (handler request)
    cases result <;> rfl

end Call

/-- Responses that are seen alike are alike. -/
theorem Transcript.ofResponse_injective (readyAt : Nat) :
    Function.Injective (Transcript.ofResponse · readyAt) := by
  intro response other same
  obtain ⟨status, headers, frames⟩ := response
  obtain ⟨otherStatus, otherHeaders, otherFrames⟩ := other
  have seen := Transcript.mk.inj same
  have sameFrames : frames = otherFrames :=
    List.map_injective_iff.mpr (fun _ _ alike => congrArg Prod.fst alike) seen.2.2.2.1
  exact Response.mk.injEq .. ▸ ⟨seen.1, seen.2.1, sameFrames⟩

/-! ## Calls in a history -/

namespace Server

variable (server : Server)

/-- What a method does with a call whose token is cancelled at a time, if it is. -/
def callFrom (method : Method) (call : Call) (cancelledAt : Option Nat) : Option Transcript :=
  let start := call.start cancelledAt
  match method with
  | .echo => Call.unaryFrom start (Echo.echo call.metadata)
  | .echoWithDelay => Call.unaryFrom start (Echo.echoWithDelay call.metadata)
  | .echoError => Call.unaryFrom start Echo.echoError
  | .serverStream => Call.serverStreamingFrom start (Echo.serverStream call.metadata)
  | .clientStream =>
    Call.clientStreamingFrom start (Echo.clientStream call.metadata call.messageBound)
  | .bidirectionalStream =>
    Call.bidiStreamingFrom start (Echo.bidirectionalStream call.metadata call.messageBound)
  | .check => Call.unaryFrom start (Health.check server.serviceNames)
  | .watch => Call.serverStreamingFrom start (Health.watch server.serviceNames)
  | .reflectionInfo =>
    Call.bidiStreamingFrom start (server.reflector.info call.messageBound)

theorem callFrom_unary {method : Method} (isUnary : method.kind = .unary) (call : Call) :
    server.callFrom method call none = server.call method call := by
  cases method with
  | echo | echoWithDelay | echoError | check => rfl
  | serverStream | clientStream | bidirectionalStream | watch | reflectionInfo => cases isUnary

theorem callFrom_streaming {method : Method} (notUnary : method.kind ≠ .unary) (call : Call) :
    server.callFrom method call call.drainAt = server.call method call := by
  cases method with
  | echo | echoWithDelay | echoError | check => exact absurd rfl notUnary
  | serverStream | clientStream | bidirectionalStream | watch | reflectionInfo => rfl

variable {σ τ : Type} (library : TokenLibrary σ τ) (tokens : Tokens σ τ) (events : List Event)

/-- How long after the beginning of a call a token is found cancelled, if it is. -/
def toldAt (kind : MethodKind) (token : τ) : Option Nat :=
  ((tokens.begins library kind).cancelledAt library token events).map (· - tokens.now)

/-- What a method does with a call that begins in the middle of a history. -/
def callIn (method : Method) (call : Call) : Option Transcript :=
  let told := toldAt library tokens events method.kind
  server.callFrom method { call with drainAt := told tokens.drain }
    (told (tokens.tokenFor library method.kind).1)

/-- What the sender of a request sees that comes in the middle of a history. -/
def answerIn (request : Request) : Option Transcript :=
  match server.route request with
  | .refused response => some (Transcript.ofResponse response 0)
  | .accepted _ method wire =>
    server.callIn library tokens events method ⟨wire, request.headers, request.body, none⟩

variable {library tokens} {order : TokenOrder σ τ}

/-- A call with one message in and one out is told of nothing but the drain. -/
theorem callIn_unary (lawful : library.IsLawful order) (sound : tokens.Sound library order)
    {method : Method} (isUnary : method.kind = .unary) (call : Call) :
    server.callIn library tokens events method call =
      server.callFrom method
        { call with drainAt := toldAt library tokens events .unary tokens.drain } none := by
  have never := (sound.begins lawful .unary).cancelledAt_unary lawful
    (List.mem_append_right tokens.calls (List.mem_singleton_self _)) rfl events
  rw [callIn, isUnary, toldAt, toldAt]
  exact congrArg (server.callFrom method _) (congrArg (Option.map _) never)

/-- A call whose response is not dropped is told when the drain begins, and nothing else of the
history. -/
theorem callIn_eq_call (lawful : library.IsLawful order) (sound : tokens.Sound library order)
    (stays : .leaves tokens.calls.length ∉ events) (method : Method) (call : Call) :
    server.callIn library tokens events method call =
      server.call method
        { call with drainAt := toldAt library tokens events method.kind tokens.drain } := by
  by_cases isUnary : method.kind = .unary
  · rw [callIn_unary server events lawful sound isUnary, callFrom_unary server isUnary, isUnary]
  · have began := sound.begins lawful method.kind
    have isLast : (tokens.begins library method.kind).calls[tokens.calls.length]? =
        some ⟨method.kind, (tokens.tokenFor library method.kind).1⟩ := List.getElem?_concat_length
    obtain ⟨_, cancelled, adds, _, _, isCancelled⟩ := sound.tokenFor lawful method.kind
    have mirrors : library.isCancelled (tokens.tokenFor library method.kind).2
        (tokens.tokenFor library method.kind).1 =
          library.isCancelled (tokens.tokenFor library method.kind).2 tokens.drain := by
      rw [adds.isCancelled, isCancelled, adds.keeps _ sound.knowsDrain]
      simp [isUnary, Tokens.isDraining]
    have together := began.cancelledAt_of_stays lawful isLast isUnary mirrors stays
    rw [callIn]
    refine Eq.trans ?_ (callFrom_streaming server isUnary _)
    exact congrArg (server.callFrom method _) (congrArg (Option.map _) together)

end Server

/-! ## Calls with one message in and one out -/

namespace Request

/-- A call with its question about health read, or as far as it comes. -/
def readHealth (request : Request) (wire : WireFormat) :
    Exchange × Option (Except Status HealthCheckRequest) :=
  (Call.startApart ⟨wire, request.headers, request.body, none⟩).readSingle

end Request

namespace Health

theorem ignoresDrain_check (known : List String) {asked : HealthCheckRequest}
    (named : asked.service ≠ "") : (check known asked).IgnoresDrain := by
  have notEmpty : asked.service.isEmpty = false :=
    Bool.eq_false_iff.mpr fun isEmpty => named (String.isEmpty_iff.mp isEmpty)
  refine ⟨?_, trivial⟩
  change Handler.finish (answer known true asked) = Handler.finish (answer known false asked)
  simp [answer, status?, notEmpty]

/-- The response that tells the state of the whole server. -/
def stateResponse (wire : WireFormat) (state : ServingStatus) : Response :=
  Response.unary wire (.ok ⟨HealthCheckResponse.of state, Headers.empty⟩)

/-- A caller tells the states apart. -/
theorem stateResponse_injective (wire : WireFormat) : Function.Injective (stateResponse wire) := by
  intro state other same
  obtain ⟨payload, encoded⟩ := exists_encode_state wire.codec state
  obtain ⟨otherPayload, otherEncoded⟩ := exists_encode_state wire.codec other
  have samePayload : payload = otherPayload := by
    have sameFrames := congrArg (fun response => response.frames.head?) same
    simp only [stateResponse, Response.unary, Except.bind, encoded, otherEncoded, Except.map]
      at sameFrames
    cases wire <;>
      simpa [Response.ofPayload, Response.streamHead, ResponseFrame.message, Envelope.wrap_inj]
        using sameFrames
  have distinct (codec : Codec) (first second : ServingStatus)
      (alike : (Payload.encode codec (HealthCheckResponse.of first)).toOption =
        (Payload.encode codec (HealthCheckResponse.of second)).toOption) : first = second := by
    revert alike
    cases codec <;> cases first <;> cases second <;> decide +kernel
  refine distinct wire.codec state other ?_
  rw [encoded, otherEncoded, samePayload]

end Health

theorem Echo.ignoresDrain_echoWithDelay (metadata : Metadata) (request : EchoWithDelayRequest) :
    (Echo.echoWithDelay metadata request).IgnoresDrain := by
  unfold Echo.echoWithDelay
  split
  · intro answer
    cases answer <;> trivial
  · trivial

namespace Server

variable (server : Server)

/-- Whatever a request is accepted for has one message in and one out, and it does not ask for the
health of the whole server. -/
def IsApart (request : Request) : Prop :=
  ∀ service method wire, server.route request = .accepted service method wire →
    method.kind = .unary ∧
      (method = .check → ∀ read asked, request.readHealth wire = (read, some (.ok asked)) →
        asked.service ≠ "")

/-- A request asks for the health of the whole server, and takes some time to be read. -/
def AsksWhole (request : Request) (wire : WireFormat) (time : Nat) : Prop :=
  ∃ service read asked, server.route request = .accepted service .check wire ∧
    request.readHealth wire = (read, some (.ok asked)) ∧ asked.service = "" ∧ read.now = time

/-- The drain does not disturb a call with one message in and one out that does not ask for it. -/
theorem callFrom_apart {method : Method} (isUnary : method.kind = .unary) (call : Call)
    (drainAt : Option Nat)
    (named : method = .check → ∀ read asked,
      (call.startApart.readSingle : Exchange × Option (Except Status HealthCheckRequest)) =
        (read, some (.ok asked)) → asked.service ≠ "") :
    server.callFrom method { call with drainAt } none = server.callFrom method call none := by
  have apart {ι ο : Type} [Payload ι] [Payload ο]
      {handler : ι → Handler ι ο (Except Status (Reply ο))}
      (ignores : ∀ read request, call.startApart.readSingle = (read, some (.ok request)) →
        (handler request).IgnoresDrain) :
      Call.unaryFrom ({ call with drainAt }.start none) handler =
        Call.unaryFrom (call.start none) handler := Call.unaryFrom_drainingAt ignores drainAt
  cases method with
  | echo => exact apart fun _ _ _ => trivial
  | echoWithDelay => exact apart fun _ request _ => Echo.ignoresDrain_echoWithDelay _ request
  | echoError => exact apart fun _ _ _ => trivial
  | check => exact apart fun read asked isRead =>
      Health.ignoresDrain_check _ (named rfl read asked isRead)
  | serverStream | clientStream | bidirectionalStream | watch | reflectionInfo => cases isUnary

/-- The health of the whole server is told as it is when the question is read. -/
theorem callFrom_check {call : Call} {read : Exchange} {asked : HealthCheckRequest}
    (isRead : call.startApart.readSingle = (read, some (.ok asked))) (isWhole : asked.service = "")
    (drainAt : Option Nat) :
    server.callFrom .check { call with drainAt } none =
      some (Transcript.ofResponse
        (Health.stateResponse call.wire
          (if Cancellation.hasCome drainAt read.now then .notServing else .serving)) read.now) := by
  have start : { call with drainAt }.start none = call.startApart.drainingAt drainAt := rfl
  change Call.unaryFrom ({ call with drainAt }.start none) _ = _
  rw [start]
  unfold Call.unaryFrom
  rw [Exchange.readSingle_drainingAt, isRead]
  have answered (isDraining : Bool) : Health.answer server.serviceNames isDraining asked =
      .ok ⟨HealthCheckResponse.of (if isDraining then .notServing else .serving),
        Headers.empty⟩ := by
    simp [Health.answer, Health.status?, isWhole]
  change Call.respond call.wire (_, some (Health.answer server.serviceNames _ asked)) = _
  rw [answered]
  rfl

section Histories

variable {σ τ : Type} (library : TokenLibrary σ τ)

/-- In a history of a server the health of the whole server is told at a time. -/
def TellsWhole (state : σ) (history : List Event) (time : Nat) (told : ServingStatus) : Prop :=
  ∃ before after request wire readAt,
    history = before ++ .begins .unary :: after ∧ server.AsksWhole request wire readAt ∧
      time = (Tokens.after library state before).now + readAt ∧
      server.answerIn library (Tokens.after library state before) after request =
        some (Transcript.ofResponse (Health.stateResponse wire told) readAt)

/-- The calls of a server do not disturb each other, and the drain does not disturb those with one
message in and one out. -/
structure Undisturbed : Prop where
  /-- A call with one message in and one out is answered alike in every two histories. -/
  apart : ∀ request, server.IsApart request →
    ∀ state before after otherState otherBefore otherAfter,
      let tokens := Tokens.after library state before
      let otherTokens := Tokens.after library otherState otherBefore
      server.answerIn library tokens after request =
        server.answerIn library otherTokens otherAfter request
  /-- A call of any kind whose response is not dropped is answered alike in every two histories in
  which it is told of the drain alike. -/
  alike : ∀ request state before after otherState otherBefore otherAfter,
    let tokens := Tokens.after library state before
    let otherTokens := Tokens.after library otherState otherBefore
    .leaves tokens.calls.length ∉ after → .leaves otherTokens.calls.length ∉ otherAfter →
      (∀ kind, toldAt library tokens after kind tokens.drain =
        toldAt library otherTokens otherAfter kind otherTokens.drain) →
        server.answerIn library tokens after request =
          server.answerIn library otherTokens otherAfter request
  /-- Cancelling the token of a call touches neither the drain nor another call. -/
  keepsOthers : ∀ state history place call,
    let tokens := Tokens.after library state history
    tokens.calls[place]? = some call →
      tokens.KeepsOthers library place (library.cancel tokens.state call.token)
  /-- Nor does anything that becomes of the response of a call. -/
  leaves : ∀ state history place,
    let tokens := Tokens.after library state history
    tokens.KeepsOthers library place (tokens.leaves library place).state
  /-- The drain cancels every call with many messages in or out, now or later, and no other. -/
  drainReaches : ∀ state before after,
    let tokens := ((Tokens.after library state before).step library .drains).run
      library after
    tokens.isDraining library = true ∧
      ∀ call ∈ tokens.calls, tokens.isOver library call = decide (call.kind ≠ .unary)
  /-- The health of the whole server is told as not serving just if the drain began. -/
  tellsDrain : ∀ state before after request wire readAt, server.AsksWhole request wire readAt →
    let tokens := Tokens.after library state before
    let moment := (Tokens.start library state).atTime library (tokens.now + readAt)
      (before ++ .begins .unary :: after)
    ∀ told, server.answerIn library tokens after request =
        some (Transcript.ofResponse (Health.stateResponse wire told) readAt) ↔
      told = if moment.isDraining library then .notServing else .serving
  /-- A server that was told not to serve is never told to serve again. -/
  lasts : ∀ state history time later, time ≤ later →
    server.TellsWhole library state history time .notServing →
      ¬ server.TellsWhole library state history later .serving

variable {library} {order : TokenOrder σ τ} {tokens : Tokens σ τ}

theorem answerIn_apart (lawful : library.IsLawful order) (sound : tokens.Sound library order)
    {request : Request} (isApart : server.IsApart request) (events : List Event) :
    server.answerIn library tokens events request = server.answer none request := by
  rw [answerIn, answer]
  cases routed : server.route request with
  | refused response => rfl
  | accepted service method wire =>
      obtain ⟨isUnary, named⟩ := isApart service method wire routed
      refine (server.callIn_unary events lawful sound isUnary _).trans ?_
      exact (server.callFrom_apart isUnary _ _ named).trans (server.callFrom_unary isUnary _)

/-- A token is found cancelled so long after the beginning of a call just if it is found cancelled
at the time. -/
theorem hasCome_toldAt (kind : MethodKind) (token : τ) (events : List Event) (millis : Nat) :
    Cancellation.hasCome (toldAt library tokens events kind token) millis =
      Cancellation.hasCome ((tokens.begins library kind).cancelledAt library token events)
        (tokens.now + millis) := by
  rw [toldAt]
  cases found : (tokens.begins library kind).cancelledAt library token events with
  | none => rfl
  | some time =>
      have notBefore : (tokens.begins library kind).now ≤ time := Tokens.le_of_cancelledAt found
      change tokens.now ≤ time at notBefore
      refine decide_eq_decide.mpr ?_
      change time - tokens.now ≤ millis ↔ time ≤ tokens.now + millis
      omega

theorem answerIn_whole (lawful : library.IsLawful order) (sound : tokens.Sound library order)
    {request : Request} {wire : WireFormat} {readAt : Nat}
    (asks : server.AsksWhole request wire readAt) (events : List Event) :
    server.answerIn library tokens events request =
      some (Transcript.ofResponse
        (Health.stateResponse wire
          (if ((tokens.begins library .unary).atTime library (tokens.now + readAt)
              events).isDraining library then .notServing else .serving)) readAt) := by
  obtain ⟨service, read, asked, routed, isRead, isWhole, rfl⟩ := asks
  have inTime : (tokens.begins library .unary).now ≤ tokens.now + read.now := Nat.le_add_right _ _
  rw [answerIn, routed]
  refine (server.callIn_unary events lawful sound rfl _).trans ?_
  refine (server.callFrom_check isRead isWhole _).trans ?_
  rw [hasCome_toldAt, (sound.begins lawful .unary).isDraining_atTime lawful inTime]
  rfl

/-- The state at a time after a call began is that which the rest of the history leads to. -/
theorem atTime_begins (state : σ) (before after : List Event) (kind : MethodKind) (millis : Nat) :
    let tokens := Tokens.after library state before
    (Tokens.start library state).atTime library (tokens.now + millis)
        (before ++ .begins kind :: after) =
      (tokens.begins library kind).atTime library (tokens.now + millis) after := by
  intro tokens
  have inTime : tokens.now ≤ tokens.now + millis := Nat.le_add_right _ _
  exact (Tokens.atTime_append before _ inTime).trans (if_pos inTime)

/-- The health of the whole server is told in one way only: as it is at the moment. -/
theorem answerIn_whole_iff (lawful : library.IsLawful order) (state : σ) (before after : List Event)
    {request : Request} {wire : WireFormat} {readAt : Nat}
    (asks : server.AsksWhole request wire readAt) (told : ServingStatus) :
    let tokens := Tokens.after library state before
    let moment := (Tokens.start library state).atTime library (tokens.now + readAt)
      (before ++ .begins .unary :: after)
    server.answerIn library tokens after request =
        some (Transcript.ofResponse (Health.stateResponse wire told) readAt) ↔
      told = if moment.isDraining library then .notServing else .serving := by
  intro tokens moment
  have sound : tokens.Sound library order := Tokens.sound_after lawful state before
  have answered := server.answerIn_whole lawful sound asks after
  rw [← atTime_begins state before after .unary readAt] at answered
  rw [answered]
  constructor
  · intro same
    have sameResponse := Transcript.ofResponse_injective readAt (Option.some.inj same)
    exact (Health.stateResponse_injective wire sameResponse).symm
  · rintro rfl
    rfl

theorem not_tellsWhole_serving (lawful : library.IsLawful order) {state : σ} {history : List Event}
    {time later : Nat} (inOrder : time ≤ later)
    (told : server.TellsWhole library state history time .notServing) :
    ¬ server.TellsWhole library state history later .serving := by
  intro toldLater
  obtain ⟨before, after, request, wire, readAt, rfl, asks, rfl, answered⟩ := told
  obtain ⟨beforeLater, afterLater, other, otherWire, readLater, same, asksLater, rfl,
    answeredLater⟩ := toldLater
  have draining := (server.answerIn_whole_iff lawful state before after asks _).mp answered
  have serving := (server.answerIn_whole_iff lawful state beforeLater afterLater asksLater _).mp
    answeredLater
  rw [← same] at serving
  split at draining
  · rename_i drainingThen
    have lasts := (Tokens.sound_start lawful state).draining_lasts lawful (Nat.zero_le _) inOrder
      drainingThen
    rw [if_pos lasts] at serving
    cases serving
  · cases draining

/-- With every library of tokens that does what is assumed of it, a call disturbs no other one, and
the drain disturbs no call with one message in and one out. -/
theorem calls_undisturbed (lawful : library.IsLawful order) : server.Undisturbed library where
  apart := fun request isApart state before after otherState otherBefore otherAfter => by
    have sound := Tokens.sound_after lawful state before
    have otherSound := Tokens.sound_after lawful otherState otherBefore
    exact (server.answerIn_apart lawful sound isApart after).trans
      (server.answerIn_apart lawful otherSound isApart otherAfter).symm
  alike := fun request state before after otherState otherBefore otherAfter => by
    intro tokens otherTokens stays staysToo together
    have sound : tokens.Sound library order := Tokens.sound_after lawful state before
    have otherSound : otherTokens.Sound library order :=
      Tokens.sound_after lawful otherState otherBefore
    rw [answerIn, answerIn]
    cases server.route request with
    | refused response => rfl
    | accepted service method wire =>
        change server.callIn _ _ _ _ _ = server.callIn _ _ _ _ _
        rw [server.callIn_eq_call _ lawful sound stays, together method.kind,
          server.callIn_eq_call _ lawful otherSound staysToo]
  keepsOthers := fun state history place call isCall =>
    (Tokens.sound_after lawful state history).cancel_call lawful isCall
  leaves := fun state history place =>
    (Tokens.sound_after lawful state history).leaves_keepsOthers lawful place
  drainReaches := fun state before after => by
    have sound := Tokens.sound_after lawful state before
    have soundThen := (sound.drains lawful).run lawful after
    have draining := (sound.drains lawful).draining_run lawful after (sound.draining_drains lawful)
    refine ⟨draining, fun call member => ?_⟩
    by_cases isUnary : call.kind = .unary
    · rw [soundThen.notOver call member isUnary]
      simp [isUnary]
    · rw [soundThen.follows call member isUnary draining]
      simp [isUnary]
  tellsDrain := fun state before after request wire readAt asks told =>
    server.answerIn_whole_iff lawful state before after asks told
  lasts := fun state history time later inOrder told =>
    server.not_tellsWhole_serving lawful inOrder told

end Histories

end Server

/-- A request without a message for a method. -/
def emptyRequest (target : String) : Request where
  method := "POST"
  target := target
  headers := Headers.empty.insert "content-type" (Bytes.ofAscii "application/proto")
  body := ⟨[], .complete⟩

/-- A server whose tokens stand in a forest, after a stream began and before a call begins. -/
def forestTokens (events : List Event) : Tokens TokenForest Nat :=
  Tokens.after TokenForest.library [] (.begins .bidiStreaming :: events)

/-- A stream begins and a call after it. The call is answered alike if the server drains before and
if it drains after the response of the stream is dropped. A question for the health of the whole
server is told the difference. -/
theorem calls_undisturbed_forest :
    TokenForest.library.IsLawful TokenForest.order ∧
      Server.IsApart ⟨{}⟩ (emptyRequest "/echo.v1.Echo/Echo") ∧
      Server.answerIn ⟨{}⟩ TokenForest.library (forestTokens [.drains, .passes 7]) []
          (emptyRequest "/echo.v1.Echo/Echo") =
        Server.answerIn ⟨{}⟩ TokenForest.library (forestTokens []) [.leaves 0, .passes 1, .drains]
          (emptyRequest "/echo.v1.Echo/Echo") ∧
      Server.answerIn ⟨{}⟩ TokenForest.library (forestTokens [.drains, .passes 7]) []
          (emptyRequest "/grpc.health.v1.Health/Check") =
        some (Transcript.ofResponse (Health.stateResponse (.connectUnary .proto) .notServing) 0) ∧
      Server.answerIn ⟨{}⟩ TokenForest.library (forestTokens []) [.leaves 0, .passes 1, .drains]
          (emptyRequest "/grpc.health.v1.Health/Check") =
        some (Transcript.ofResponse (Health.stateResponse (.connectUnary .proto) .serving) 0) := by
  have undisturbed := Server.calls_undisturbed ⟨{}⟩ TokenForest.isLawful
  have isApart : Server.IsApart ⟨{}⟩ (emptyRequest "/echo.v1.Echo/Echo") := by
    intro service method wire accepted
    have routed : Server.route ⟨{}⟩ (emptyRequest "/echo.v1.Echo/Echo") =
        .accepted .echo .echo (.connectUnary .proto) := by decide +kernel
    cases routed.symm.trans accepted
    exact ⟨rfl, fun isCheck => nomatch isCheck⟩
  have asks : Server.AsksWhole ⟨{}⟩ (emptyRequest "/grpc.health.v1.Health/Check")
      (.connectUnary .proto) 0 := by
    have decoded : Payload.decode .proto [] = .ok (⟨""⟩ : HealthCheckRequest) := by decide +kernel
    refine ⟨.health, _, ⟨""⟩, by decide +kernel, Prod.ext rfl (congrArg some decoded), rfl, rfl⟩
  refine ⟨TokenForest.isLawful, isApart, undisturbed.apart _ isApart _ _ _ _ _ _, ?_, ?_⟩
  · exact (undisturbed.tellsDrain _ _ _ _ _ _ asks _).mpr (by decide)
  · exact (undisturbed.tellsDrain _ _ _ _ _ _ asks _).mpr (by decide)

end RpcEcho
