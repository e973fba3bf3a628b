import RpcEcho.Proofs.Header.Map
import RpcEcho.Proofs.Protocol.Marks
import RpcEcho.Server

/-!
# Admission

A request is refused as soon as its content type carries the mark of a protocol that is switched
off. The call reads the content type more freely than the filter: it trims white space and folds
case. So the exact condition is about marks, and it coincides with the protocol of the format for
content types that are spelt as they are advertised.
-/

namespace RpcEcho

open Api

/-- A method with a stream is called in a format with envelopes. -/
theorem MethodKind.isEnveloped_of_accepts {kind : MethodKind} (streams : kind ≠ .unary)
    {wire : WireFormat} (accepted : kind.accepts wire = true) : wire.isEnveloped = true := by
  cases wire with
  | connectUnary codec => exact absurd (of_decide_eq_true accepted) streams
  | connectStream codec | grpc codec | grpcWeb codec => rfl

namespace Server

/-! ## Routes -/

theorem disabledProtocol?_eq_none_iff {server : Server} {headers : Headers} :
    server.disabledProtocol? headers = none ↔
      ∀ contentType, headers.firstText? "content-type" = some contentType →
        ∀ protocol : Protocol, protocol.Marks contentType →
          server.settings.protocols.isEnabled protocol = true := by
  rw [disabledProtocol?, Protocol.ofHeaders?, Option.filter_eq_none_iff]
  simp only [Option.bind_eq_some_iff, Protocol.classify_eq_some_iff, Bool.not_eq_true',
    Bool.not_eq_false]
  constructor
  · intro allEnabled contentType found protocol marks
    exact allEnabled protocol ⟨contentType, found, marks⟩
  · rintro allEnabled protocol ⟨contentType, found, marks⟩
    exact allEnabled contentType found protocol marks

/-- What a request must have so that a method answers it. -/
theorem route_eq_accepted_iff {server : Server} {request : Request} {service : Service}
    {method : Method} {wire : WireFormat} :
    server.route request = .accepted service method wire ↔
      ∃ name, server.serviceOf? request.path = some (service, name) ∧
        server.disabledProtocol? request.headers = none ∧
        request.method = "POST" ∧
        WireFormat.ofHeaders? request.headers = some wire ∧
        service.method? name = some method ∧
        method.kind.accepts wire = true := by
  unfold route
  cases owner : server.serviceOf? request.path with
  | none => simp
  | some found =>
      obtain ⟨other, name⟩ := found
      simp only [routeIn, Option.some.injEq, Prod.mk.injEq]
      constructor
      · intro accepted
        split at accepted
        · cases accepted
        · rename_i admitted
          split at accepted
          · cases accepted
          · rename_i isPost
            split at accepted
            · cases accepted
            · rename_i format formatRead
              split at accepted
              · cases accepted
              · rename_i namedMethod methodFound
                split at accepted
                · rename_i accepts
                  cases accepted
                  exact ⟨name, ⟨rfl, rfl⟩, admitted, Decidable.not_not.mp isPost, formatRead,
                    methodFound, accepts⟩
                · cases accepted
      · rintro ⟨_, ⟨rfl, rfl⟩, admitted, isPost, formatRead, methodFound, accepts⟩
        simp [admitted, isPost, formatRead, methodFound, accepts]

theorem serviceOf?_echo (server : Server) {name : String} (notEmpty : name.toList ≠ [])
    (onePart : '/' ∉ name.toList) :
    server.serviceOf? (methodRoot .echo ++ name.toList) = some (.echo, name) := by
  have part : lastPart? .echo (methodRoot .echo ++ name.toList) = some name.toList := by
    simp [lastPart?, notEmpty, onePart]
  rw [serviceOf?, services]
  simp [part]

/-! ## Calls of the service of echoes -/

/-- A request calls a method of the service of echoes in a format of the method, and the server
speaks the format. -/
structure Calls (server : Server) (request : Request) (method : Method) (wire : WireFormat) :
    Prop where
  headers : request.headers.IsWellFormed
  path : request.path = "/echo.v1.Echo/".toList ++ method.name.toList
  isPost : request.method = "POST"
  format : WireFormat.ofHeaders? request.headers = some wire
  accepted : method.kind.accepts wire = true
  admitted : server.disabledProtocol? request.headers = none

/-- What a request calls does not depend on its body. -/
theorem Calls.withBody {server : Server} {request : Request} {method : Method} {wire : WireFormat}
    (calls : server.Calls request method wire) (body : RequestBody) :
    server.Calls { request with body } method wire :=
  ⟨calls.headers, calls.path, calls.isPost, calls.format, calls.accepted, calls.admitted⟩

theorem Calls.route {server : Server} {request : Request} {method : Method} {wire : WireFormat}
    (calls : server.Calls request method wire) (listed : method ∈ Service.echo.methods) :
    server.route request = .accepted .echo method wire := by
  have named : ∀ method ∈ Service.echo.methods, method.name.toList ≠ [] ∧
      '/' ∉ method.name.toList ∧ Service.echo.method? method.name = some method := by
    decide
  obtain ⟨notEmpty, onePart, isFound⟩ := named method listed
  have root : methodRoot .echo = "/echo.v1.Echo/".toList := by decide
  refine route_eq_accepted_iff.mpr ⟨method.name, ?_, calls.admitted, calls.isPost, calls.format,
    isFound, calls.accepted⟩
  rw [calls.path, ← root]
  exact serviceOf?_echo server notEmpty onePart

/-! ## Served formats -/

/-- A request for a method of the service of echoes, with no message yet. -/
def echoPost (method : Method) (headers : Headers) : Request where
  method := "POST"
  target := String.ofList (methodRoot .echo ++ method.name.toList)
  headers := headers
  body := ⟨[], .complete⟩

/-- A method answers some request with the headers, in the format. -/
def Serves (server : Server) (headers : Headers) (wire : WireFormat) : Prop :=
  ∃ request service method,
    request.headers = headers ∧ server.route request = .accepted service method wire

theorem serviceOf?_echoPost (server : Server) (headers : Headers) {method : Method}
    (listed : method ∈ Service.echo.methods) :
    server.serviceOf? (echoPost method headers).path = some (.echo, method.name) := by
  have wellNamed : ∀ method ∈ Service.echo.methods,
      Request.pathChars (methodRoot .echo ++ method.name.toList) =
          methodRoot .echo ++ method.name.toList ∧
        method.name.toList ≠ [] ∧ '/' ∉ method.name.toList := by
    decide
  obtain ⟨samePath, notEmpty, onePart⟩ := wellNamed method listed
  rw [Request.path, echoPost, String.toList_ofList, samePath]
  exact serviceOf?_echo server notEmpty onePart

/-- Some method of the service of echoes can be called in each format. -/
theorem exists_method_accepts (wire : WireFormat) :
    ∃ method ∈ Service.echo.methods,
      Service.echo.method? method.name = some method ∧ method.kind.accepts wire = true := by
  cases wire with
  | connectStream codec => exact ⟨.serverStream, by decide, by decide, rfl⟩
  | connectUnary codec => exact ⟨.echo, by decide, by decide, rfl⟩
  | grpc codec => exact ⟨.echo, by decide, by decide, rfl⟩
  | grpcWeb codec => exact ⟨.echo, by decide, by decide, rfl⟩

theorem serves_iff {server : Server} {headers : Headers} {wire : WireFormat} :
    server.Serves headers wire ↔
      WireFormat.ofHeaders? headers = some wire ∧ server.disabledProtocol? headers = none := by
  constructor
  · rintro ⟨request, service, method, rfl, accepted⟩
    obtain ⟨_, _, admitted, _, formatRead, _⟩ := route_eq_accepted_iff.mp accepted
    exact ⟨formatRead, admitted⟩
  · rintro ⟨formatRead, admitted⟩
    obtain ⟨method, listed, methodFound, accepts⟩ := exists_method_accepts wire
    exact ⟨echoPost method headers, .echo, method, rfl, route_eq_accepted_iff.mpr
      ⟨method.name, serviceOf?_echoPost server headers listed, admitted, rfl, formatRead,
        methodFound, accepts⟩⟩

/-- A format is served exactly if the content type names it and carries no mark of a protocol that
is switched off. So a method never answers in a format of a protocol that is switched off if the
content type carries the mark of that protocol, as plain content types do. -/
theorem serves_iff_and_enabled_of_marks (server : Server) (headers : Headers)
    (wire : WireFormat) :
    (server.Serves headers wire ↔
      ∃ contentType, headers.firstText? "content-type" = some contentType ∧
        WireFormat.ofContentType? contentType = some wire ∧
        ∀ protocol : Protocol, protocol.Marks contentType →
          server.settings.protocols.isEnabled protocol = true) ∧
    (server.Serves headers wire →
      ∀ contentType, headers.firstText? "content-type" = some contentType →
        wire.protocol.Marks contentType ∨ wire.IsPlain contentType →
          server.settings.protocols.isEnabled wire.protocol = true) := by
  have exactly : server.Serves headers wire ↔
      ∃ contentType, headers.firstText? "content-type" = some contentType ∧
        WireFormat.ofContentType? contentType = some wire ∧
        ∀ protocol : Protocol, protocol.Marks contentType →
          server.settings.protocols.isEnabled protocol = true := by
    rw [serves_iff, disabledProtocol?_eq_none_iff, WireFormat.ofHeaders?, Option.bind_eq_some_iff]
    constructor
    · rintro ⟨⟨contentType, found, formatRead⟩, allEnabled⟩
      exact ⟨contentType, found, formatRead, allEnabled contentType found⟩
    · rintro ⟨contentType, found, formatRead, allEnabled⟩
      refine ⟨⟨contentType, found, formatRead⟩, fun other otherFound => ?_⟩
      cases found.symm.trans otherFound
      exact allEnabled
  refine ⟨exactly, fun served contentType found spelling => ?_⟩
  obtain ⟨other, otherFound, _, allEnabled⟩ := exactly.mp served
  cases otherFound.symm.trans found
  refine allEnabled wire.protocol ?_
  rcases spelling with marks | plain
  · exact marks
  · exact WireFormat.marks_of_isPlain plain

/-- The filter minds the case of letters and the call does not: a method answers in a format of
Connect although Connect is switched off. -/
theorem exists_served_switchedOff :
    ¬ ∀ (server : Server) (request : Request) (service : Service) (method : Method)
        (wire : WireFormat), server.route request = .accepted service method wire →
          server.settings.protocols.isEnabled wire.protocol = true := by
  intro claimed
  have enabled := claimed ⟨{ protocols := { connect := false } }⟩
    (echoPost .echo (Headers.ofList [("content-type", Bytes.ofAscii "Application/JSON")]))
    .echo .echo (.connectUnary .json) (by decide)
  exact absurd enabled (by decide)

end Server

end RpcEcho
