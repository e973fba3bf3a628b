import RpcEcho.Server

/-!
# The handlers behind the methods

What a service has registered under the names of its methods: a handler for
each, which is a program of one of four kinds.

* `MethodHandler`: a program with its kind.
* `MethodHandler.Handles`: what a caller sees of a call that a handler
  handles.
* `Server.registered`: the handlers of a service, by name.
* `Server.call_eq_run`: a method does with a call what its handler does.
-/

namespace RpcEcho

open Api

/-- A handler: a program for calls of a kind. -/
inductive MethodHandler : Type 1 where
  | unary {ι ο : Type} [Payload ι] [Payload ο]
      (program : Call → ι → Handler ι ο (Except Status (Reply ο)))
  | serverStreaming {ι ο : Type} [Payload ι] [Payload ο]
      (program : Call → ι → Handler ι ο Outcome)
  | clientStreaming {ι ο : Type} [Payload ι] [Payload ο]
      (program : Call → Handler ι ο (Except Status (Reply ο)))
  | bidiStreaming {ι ο : Type} [Payload ι] [Payload ο]
      (program : Call → Handler ι ο Outcome)

namespace MethodHandler

/-- How many messages a handler takes and gives. -/
def kind : MethodHandler → MethodKind
  | unary _ => .unary
  | serverStreaming _ => .serverStreaming
  | clientStreaming _ => .clientStreaming
  | bidiStreaming _ => .bidiStreaming

/-- What a handler does with a call. -/
def run (handler : MethodHandler) (call : Call) : Option Transcript :=
  match handler with
  | unary program => call.unary (program call)
  | serverStreaming program => call.serverStreaming (program call)
  | clientStreaming program => call.clientStreaming (program call)
  | bidiStreaming program => call.bidiStreaming (program call)

/-- What a caller sees of a call that a handler handles, if it ever sees
anything. The program of the handler runs once; only if its one request cannot
be read, it does not run. -/
inductive Handles (call : Call) : MethodHandler → Option Transcript → Prop
  | unaryUnread {ι ο : Type} [Payload ι] [Payload ο]
      {program : Call → ι → Handler ι ο (Except Status (Reply ο))} {after : Exchange}
      (read : call.startApart.readSingle = (after, (none : Option (Except Status ι)))) :
      Handles call (unary program) none
  | unaryRefused {ι ο : Type} [Payload ι] [Payload ο]
      {program : Call → ι → Handler ι ο (Except Status (Reply ο))} {after : Exchange}
      {status : Status}
      (read : call.startApart.readSingle =
        (after, some (.error status : Except Status ι))) :
      Handles call (unary program) (some (Transcript.ofResponse
        (Response.unary call.wire (.error status : Except Status (Reply ο))) after.now))
  | unary {ι ο : Type} [Payload ι] [Payload ο]
      {program : Call → ι → Handler ι ο (Except Status (Reply ο))}
      {before after : Exchange} {request : ι} {result? : Option (Except Status (Reply ο))}
      (read : call.startApart.readSingle = (before, some (.ok request : Except Status ι)))
      (ran : before.run (program call request) = (after, result?)) :
      Handles call (unary program) (result?.map fun result =>
        Transcript.ofResponse (Response.unary call.wire result) after.now)
  | serverStreamingUnread {ι ο : Type} [Payload ι] [Payload ο]
      {program : Call → ι → Handler ι ο Outcome} {after : Exchange}
      (read : call.startDraining.readSingle = (after, (none : Option (Except Status ι)))) :
      Handles call (serverStreaming program) none
  | serverStreamingRefused {ι ο : Type} [Payload ι] [Payload ο]
      {program : Call → ι → Handler ι ο Outcome} {after : Exchange} {status : Status}
      (read : call.startDraining.readSingle =
        (after, some (.error status : Except Status ι))) :
      Handles call (serverStreaming program) (some (Transcript.ofStream call.wire after.now
        ((Call.listen after).conclude (.error status)).outbound))
  | serverStreaming {ι ο : Type} [Payload ι] [Payload ο]
      {program : Call → ι → Handler ι ο Outcome} {before after : Exchange} {request : ι}
      (read : call.startDraining.readSingle =
        (before, some (.ok request : Except Status ι)))
      (ran : (Call.listen before).runStream (program call request) = after) :
      Handles call (serverStreaming program)
        (some (Transcript.ofStream call.wire before.now after.outbound))
  | clientStreaming {ι ο : Type} [Payload ι] [Payload ο]
      {program : Call → Handler ι ο (Except Status (Reply ο))} {after : Exchange}
      {result? : Option (Except Status (Reply ο))}
      (ran : call.startDraining.run (program call) = (after, result?)) :
      Handles call (clientStreaming program) (result?.map fun result =>
        Transcript.ofResponse (Response.unary call.wire result) after.now)
  | bidiStreaming {ι ο : Type} [Payload ι] [Payload ο]
      {program : Call → Handler ι ο Outcome} {after : Exchange}
      (ran : (Call.listen call.startDraining).runStream (program call) = after) :
      Handles call (bidiStreaming program)
        (some (Transcript.ofStream call.wire 0 after.outbound))

section Handling

variable {ι ο : Type} [Payload ι] [Payload ο] {call : Call}

theorem respond_eq_map (wire : WireFormat) (after : Exchange)
    (result? : Option (Except Status (Reply ο))) :
    Call.respond wire (after, result?) =
      result?.map fun result =>
        Transcript.ofResponse (Response.unary wire result) after.now := by
  cases result? <;> rfl

theorem handles_unary (program : Call → ι → Handler ι ο (Except Status (Reply ο))) :
    Handles call (.unary program) (call.unary (program call)) := by
  rw [Call.unary]
  cases read : (call.startApart.readSingle : Exchange × Option (Except Status ι)) with
  | mk before outcome =>
      cases outcome with
      | none => exact .unaryUnread read
      | some result =>
          cases result with
          | error status => exact .unaryRefused read
          | ok request =>
              cases ran : before.run (program call request) with
              | mk after result? =>
                  have handled := Handles.unary read ran
                  rw [← respond_eq_map, ← ran] at handled
                  exact handled

theorem handles_serverStreaming (program : Call → ι → Handler ι ο Outcome) :
    Handles call (.serverStreaming program) (call.serverStreaming (program call)) := by
  rw [Call.serverStreaming]
  cases read : (call.startDraining.readSingle : Exchange × Option (Except Status ι)) with
  | mk before outcome =>
      cases outcome with
      | none => exact .serverStreamingUnread read
      | some result =>
          cases result with
          | error status => exact .serverStreamingRefused read
          | ok request => exact .serverStreaming read rfl

theorem handles_clientStreaming
    (program : Call → Handler ι ο (Except Status (Reply ο))) :
    Handles call (.clientStreaming program) (call.clientStreaming (program call)) := by
  rw [Call.clientStreaming]
  cases ran : call.startDraining.run (program call) with
  | mk after result? =>
      rw [respond_eq_map]
      exact .clientStreaming ran

end Handling

/-- What a handler does with a call is what it should do. -/
theorem handles_run (handler : MethodHandler) (call : Call) :
    Handles call handler (handler.run call) := by
  cases handler with
  | unary program => exact handles_unary program
  | serverStreaming program => exact handles_serverStreaming program
  | clientStreaming program => exact handles_clientStreaming program
  | bidiStreaming program => exact .bidiStreaming rfl

end MethodHandler

namespace Server

/-! ## Registered handlers -/

/-- The handler behind a method. -/
def handlerOf (server : Server) : Method → MethodHandler
  | .echo => .unary fun call => Echo.echo call.metadata
  | .echoWithDelay => .unary fun call => Echo.echoWithDelay call.metadata
  | .echoError => .unary fun _ => Echo.echoError
  | .serverStream => .serverStreaming fun call => Echo.serverStream call.metadata
  | .clientStream =>
    .clientStreaming fun call => Echo.clientStream call.metadata call.messageBound
  | .bidirectionalStream =>
    .bidiStreaming fun call => Echo.bidirectionalStream call.metadata call.messageBound
  | .check => .unary fun _ => Health.check server.serviceNames
  | .watch => .serverStreaming fun _ => Health.watch server.serviceNames
  | .reflectionInfo => .bidiStreaming fun call => server.reflector.info call.messageBound

/-- The handlers of a service, by the names under which they are registered. -/
def registered (server : Server) : Service → List (String × MethodHandler)
  | .echo =>
    [("Echo", server.handlerOf .echo),
      ("EchoWithDelay", server.handlerOf .echoWithDelay),
      ("EchoError", server.handlerOf .echoError),
      ("ServerStream", server.handlerOf .serverStream),
      ("ClientStream", server.handlerOf .clientStream),
      ("BidirectionalStream", server.handlerOf .bidirectionalStream)]
  | .health =>
    [("Check", server.handlerOf .check), ("Watch", server.handlerOf .watch)]
  | .reflection | .reflectionAlpha =>
    [("ServerReflectionInfo", server.handlerOf .reflectionInfo)]

variable {server : Server} {service : Service} {name : String} {handler : MethodHandler}

/-- The registered handlers are those of the methods of the service. -/
theorem mem_registered_iff :
    (name, handler) ∈ server.registered service ↔
      ∃ method ∈ service.methods, method.name = name ∧ server.handlerOf method = handler := by
  have listed : server.registered service =
      service.methods.map fun method => (method.name, server.handlerOf method) := by
    cases service <;> rfl
  rw [listed, List.mem_map]
  simp only [Prod.mk.injEq]

theorem kind_handlerOf (server : Server) (method : Method) :
    (server.handlerOf method).kind = method.kind := by
  cases method <;> rfl

/-- A method does with a call what its handler does. -/
theorem call_eq_run (server : Server) (method : Method) (call : Call) :
    server.call method call = (server.handlerOf method).run call := by
  cases method <;> rfl

end Server

end RpcEcho
