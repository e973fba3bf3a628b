import RpcEcho.Proofs.Server.Handlers
import RpcEcho.Proofs.Services.Echo

/-!
# The layers of a server

A request passes three layers, each with refusals of its own: the paths of the services that are
offered, the filter for protocols that are switched off, and the choice of a method. The filter
stands around any service; a request that it lets through reaches the service as it came.

* `Server.admission`, `Server.dispatch`: the two inner layers, apart from each other.
* `Server.admission_of_isDocumented`: for content types that are spelt as they are advertised, the
  filter and the choice of a method agree on the protocol.
* `Server.Asks`, `Server.serviceOf?_eq_some_iff`: the outer layer, as a condition on the path.
* `Server.answerBy`: answers of a server whose handlers are run by whatever is given for that.
* `Server.Refuses`, `Server.RunsOnce`: a request is refused unread, or handed to one handler.
* `Server.decidesInOrder`: what becomes of a request, also of one with several faults.
-/

namespace RpcEcho

open Api

/-! ## Documented content types -/

namespace WireFormat

/-- A value spells a media type of the format as it is advertised, alone or before a semicolon and
a text that does not mention gRPC. -/
def IsDocumented (wire : WireFormat) (value : Bytes) : Prop :=
  ∃ mediaType, (mediaType, wire) ∈ mediaTypes ∧
    (value = Bytes.ofAscii mediaType ∨ ∃ parameters,
      value = Bytes.ofAscii mediaType ++ 59 :: parameters ∧
      (∀ octet ∈ parameters, HeaderValue.isTextOctet octet = true) ∧
      ¬ Bytes.ofAscii "application/grpc" <:+: parameters)

/-- The text of octets of a value, one character an octet. -/
def textOf (octets : Bytes) : String :=
  String.ofList (octets.map fun octet => Char.ofNat octet.toNat)

theorem mediaTypes_are_text :
    ∀ entry ∈ mediaTypes,
      (∀ octet ∈ Bytes.ofAscii entry.1, HeaderValue.isTextOctet octet = true) ∧
        textOf (Bytes.ofAscii entry.1) = entry.1 := by
  decide +kernel

theorem textOf_append (front rest : Bytes) :
    textOf (front ++ rest) = textOf front ++ textOf rest := by
  rw [textOf, List.map_append, String.ofList_append]
  rfl

/-- A part that occurs in the text of octets occurs in the octets. -/
theorem infix_of_occurs_textOf {part : String} {octets : Bytes}
    (texts : ∀ octet ∈ octets, HeaderValue.isTextOctet octet = true)
    (occurs : Text.Occurs part (textOf octets)) : Bytes.ofAscii part <:+: octets := by
  rw [Text.Occurs, textOf, String.toList_ofList] at occurs
  have mapped := occurs.map fun c => UInt8.ofNat c.toNat
  have back : ∀ octet ∈ octets, UInt8.ofNat (Char.ofNat octet.toNat).toNat = id octet := by
    intro octet member
    rw [HeaderValue.toNat_ofNat_of_ascii
      (HeaderValue.toNat_lt_of_isTextOctet (texts octet member)), UInt8.ofNat_toNat, id]
  rw [List.map_map] at mapped
  have same := (List.map_congr_left back).trans (List.map_id octets)
  exact same ▸ mapped

/-- A documented value is text, and the text is plain. -/
theorem IsDocumented.exists_isPlain {wire : WireFormat} {value : Bytes}
    (documented : wire.IsDocumented value) :
    ∃ contentType, HeaderValue.text? value = some contentType ∧ wire.IsPlain contentType := by
  obtain ⟨mediaType, listed, shape⟩ := documented
  obtain ⟨typeTexts, spelled⟩ := mediaTypes_are_text _ listed
  rcases shape with rfl | ⟨parameters, rfl, texts, noGrpc⟩
  · exact ⟨mediaType, HeaderValue.text?_eq_some_iff.mpr ⟨typeTexts, spelled⟩,
      mediaType, listed, Or.inl rfl⟩
  · refine ⟨mediaType ++ ";" ++ textOf parameters, ?_, mediaType, listed,
      Or.inr ⟨_, rfl, fun occurs => noGrpc (infix_of_occurs_textOf texts occurs)⟩⟩
    refine HeaderValue.text?_eq_some_iff.mpr ⟨fun octet member => ?_, ?_⟩
    · rcases List.mem_append.mp member with inType | inRest
      · exact typeTexts octet inType
      · rcases List.mem_cons.mp inRest with rfl | inParameters
        · decide
        · exact texts octet inParameters
    · have semicolon : textOf [59] = ";" := by decide
      change textOf (Bytes.ofAscii mediaType ++ ([59] ++ parameters)) = _
      rw [textOf_append, textOf_append, spelled, semicolon, String.append_assoc]

end WireFormat

namespace Server

/-! ## The filter around a service -/

/-- The filter around a service: a request of a protocol that is switched off is refused, and any
other reaches the service as it came. -/
def admission {α : Type} (server : Server) (refuse : Response → α) (service : Request → α)
    (request : Request) : α :=
  match server.disabledProtocol? request.headers with
  | some protocol => refuse (disabled protocol)
  | none => service request

/-- What becomes of a request that the filter let through, whatever the settings are. -/
def dispatch (service : Service) (name : String) (request : Request) : Route :=
  if request.method ≠ "POST" then .refused methodNotAllowed
  else match WireFormat.ofHeaders? request.headers with
    | none => .refused unsupportedMediaType
    | some wire =>
      match service.method? name with
      | none => .refused (Response.rejection 404 "not found")
      | some method =>
        if method.kind.accepts wire then .accepted service method wire
        else .refused unsupportedMediaType

theorem routeIn_eq_admission (server : Server) (request : Request) (service : Service)
    (name : String) :
    server.routeIn request service name =
      server.admission .refused (dispatch service name) request := rfl

theorem disabledProtocol?_of_ofHeaders? {server : Server} {headers : Headers}
    {protocol : Protocol} (found : Protocol.ofHeaders? headers = some protocol) :
    server.disabledProtocol? headers =
      if server.settings.protocols.isEnabled protocol then none else some protocol := by
  rw [disabledProtocol?, found, Option.filter_some]
  cases server.settings.protocols.isEnabled protocol <;> rfl

/-- A content type that is spelt as it is advertised names a format, and carries the mark of the
protocol of that format. So around any service the filter refuses such a request by the name of
that protocol if it is switched off, and otherwise hands it on as it came. -/
theorem admission_of_isDocumented {wire : WireFormat} {value : Bytes}
    (documented : wire.IsDocumented value) {request : Request}
    (first : request.headers.first? "content-type" = some value) :
    (∃ contentType, HeaderValue.text? value = some contentType ∧
      WireFormat.ofContentType? contentType = some wire ∧
      Protocol.classify contentType = some wire.protocol) ∧
    ∀ (server : Server) {α : Type} (refuse : Response → α) (service : Request → α),
      server.admission refuse service request =
        if server.settings.protocols.isEnabled wire.protocol then service request
        else refuse (Response.rejection 501 (wire.protocol.name ++ " protocol is disabled")) := by
  obtain ⟨contentType, isText, plain⟩ := documented.exists_isPlain
  have classified := Protocol.classify_eq_some_iff.mpr (WireFormat.marks_of_isPlain plain)
  have detected : Protocol.ofHeaders? request.headers = some wire.protocol := by
    rw [Protocol.ofHeaders?, Headers.firstText?, first, Option.bind_some, isText,
      Option.bind_some, classified]
  refine ⟨⟨contentType, isText, WireFormat.ofContentType?_of_isPlain plain, classified⟩,
    fun server α refuse service => ?_⟩
  rw [admission, disabledProtocol?_of_ofHeaders? detected]
  cases server.settings.protocols.isEnabled wire.protocol <;> rfl

/-- A request for JSON with a parameter. -/
def charsetRequest : Request :=
  echoPost .echo
    (Headers.ofList [("content-type", Bytes.ofAscii "application/json; charset=utf-8")])

theorem admission_of_charsetRequest :
    (WireFormat.connectUnary .json).IsDocumented
        (Bytes.ofAscii "application/json; charset=utf-8") ∧
      (⟨{ protocols := { connect := false } }⟩ : Server).admission Except.error Except.ok
          charsetRequest =
        .error (disabled .connect) ∧
      (⟨{ protocols := { grpc := false } }⟩ : Server).admission Except.error Except.ok
          charsetRequest = .ok charsetRequest := by
  have tooShort : ¬ Bytes.ofAscii "application/grpc" <:+: Bytes.ofAscii " charset=utf-8" :=
    fun occurs => absurd occurs.length_le (by decide)
  have documented : (WireFormat.connectUnary .json).IsDocumented
      (Bytes.ofAscii "application/json; charset=utf-8") :=
    ⟨"application/json", by decide, Or.inr
      ⟨Bytes.ofAscii " charset=utf-8", by decide, by decide +kernel, tooShort⟩⟩
  have first : charsetRequest.headers.first? "content-type" =
      some (Bytes.ofAscii "application/json; charset=utf-8") := by decide
  have admitted := (admission_of_isDocumented documented first).2
  refine ⟨documented, ?_, ?_⟩
  · rw [admitted]
    exact if_neg (by decide)
  · rw [admitted]
    exact if_pos (by decide)

/-! ## The paths of services -/

/-- A request asks for a name in a service that the server offers: its path is the name of the
service and one segment that is not empty. -/
structure Asks (server : Server) (request : Request) (service : Service) (name : String) :
    Prop where
  isOffered : service ∈ server.services
  path : request.path = ("/" ++ service.name ++ "/" ++ name).toList
  notEmpty : name ≠ ""
  oneSegment : '/' ∉ name.toList

theorem methodRoot_append (service : Service) (name : String) :
    methodRoot service ++ name.toList = ("/" ++ service.name ++ "/" ++ name).toList := by
  simp [methodRoot, String.toList_append]

theorem lastPart?_eq_some_iff {service : Service} {path part : List Char} :
    lastPart? service path = some part ↔
      path = methodRoot service ++ part ∧ part ≠ [] ∧ '/' ∉ part := by
  rw [lastPart?]
  constructor
  · intro found
    obtain ⟨accepted, same⟩ := Option.ite_none_right_eq_some.mp found
    cases same
    simp only [Bool.and_eq_true, Bool.not_eq_true', List.isEmpty_eq_false_iff,
      List.contains_eq_mem, decide_eq_false_iff_not] at accepted
    obtain ⟨⟨isRoot, notEmpty⟩, oneSegment⟩ := accepted
    obtain ⟨rest, rfl⟩ := List.isPrefixOf_iff_prefix.mp isRoot
    rw [List.drop_left] at notEmpty oneSegment ⊢
    exact ⟨rfl, notEmpty, oneSegment⟩
  · rintro ⟨rfl, notEmpty, oneSegment⟩
    simp [notEmpty, oneSegment]

/-- The part before the first separator. -/
theorem takeWhile_append_separator {front rest : List Char} (notInFront : '/' ∉ front) :
    (front ++ '/' :: rest).takeWhile (fun c => c != '/') = front := by
  have passed : ∀ c ∈ front, (c != '/') = true := fun c member => by
    rw [bne_iff_ne]
    rintro rfl
    exact notInFront member
  rw [List.takeWhile_append_of_pos passed, List.takeWhile_cons_of_neg (by simp), List.append_nil]

/-- No path belongs to two services. -/
theorem service_eq_of_methodRoot {service other : Service} {part otherPart : List Char}
    (same : methodRoot service ++ part = methodRoot other ++ otherPart) : service = other := by
  have noSeparator : ∀ service : Service, '/' ∉ service.name.toList := by
    intro service
    cases service <;> decide
  have sameNames : service.name.toList = other.name.toList := by
    have fronts : service.name.toList ++ '/' :: part = other.name.toList ++ '/' :: otherPart := by
      simpa [methodRoot] using same
    rw [← takeWhile_append_separator (noSeparator service), fronts,
      takeWhile_append_separator (noSeparator other)]
  cases service <;> cases other <;> first | rfl | exact absurd sameNames (by decide)

/-- A path belongs to a service exactly if it asks for a name in it. -/
theorem serviceOf?_eq_some_iff {server : Server} {request : Request} {service : Service}
    {name : String} :
    server.serviceOf? request.path = some (service, name) ↔
      server.Asks request service name := by
  have isPart : ∀ {service : Service} {name : String},
      lastPart? service request.path = some name.toList ↔
        request.path = ("/" ++ service.name ++ "/" ++ name).toList ∧ name ≠ "" ∧
          '/' ∉ name.toList := by
    intro service name
    rw [lastPart?_eq_some_iff, methodRoot_append, ne_eq, String.toList_eq_nil_iff]
  constructor
  · intro found
    obtain ⟨owner, isOffered, owned⟩ := List.exists_of_findSome?_eq_some found
    obtain ⟨part, isLast, same⟩ := Option.map_eq_some_iff.mp owned
    cases same
    obtain ⟨path, notEmpty, oneSegment⟩ := isPart.mp (by rw [String.toList_ofList]; exact isLast)
    exact ⟨isOffered, path, notEmpty, oneSegment⟩
  · rintro ⟨isOffered, path, notEmpty, oneSegment⟩
    have owns := isPart.mpr ⟨path, notEmpty, oneSegment⟩
    have isFound : (server.serviceOf? request.path).isSome := by
      rw [serviceOf?, List.findSome?_isSome_iff]
      exact ⟨service, isOffered, by rw [owns]; rfl⟩
    obtain ⟨⟨owner, segment⟩, found⟩ := Option.isSome_iff_exists.mp isFound
    obtain ⟨other, _, owned⟩ := List.exists_of_findSome?_eq_some found
    obtain ⟨part, isLast, same⟩ := Option.map_eq_some_iff.mp owned
    cases same
    have whole := (lastPart?_eq_some_iff.mp isLast).1
    have ownWhole := (lastPart?_eq_some_iff.mp owns).1
    cases service_eq_of_methodRoot (whole.symm.trans ownWhole)
    cases isLast.symm.trans owns
    rw [found, String.ofList_toList]

/-- A request for a name in a service passes the filter around the choice of a method. -/
theorem route_of_asks {server : Server} {request : Request} {service : Service} {name : String}
    (asks : server.Asks request service name) :
    server.route request = server.admission .refused (dispatch service name) request := by
  rw [route, serviceOf?_eq_some_iff.mpr asks]
  exact routeIn_eq_admission server request service name

theorem route_of_not_asks {server : Server} {request : Request}
    (asksNothing : ∀ service name, ¬ server.Asks request service name) :
    server.route request = .refused (Response.bare 404) := by
  rw [route]
  cases owner : server.serviceOf? request.path with
  | none => rfl
  | some found => exact absurd (serviceOf?_eq_some_iff.mp owner) (asksNothing found.1 found.2)

/-! ## Decisions in order -/

/-- What a server answers whose handlers are run by whatever is given for that. -/
def answerBy {m : Type → Type} [Monad m] (server : Server)
    (run : MethodHandler → Call → m (Option Transcript)) (drainAt : Option Nat)
    (request : Request) : m (Option Transcript) :=
  match server.route request with
  | .refused response => pure (some (Transcript.ofResponse response 0))
  | .accepted _ method wire =>
    run (server.handlerOf method) ⟨wire, request.headers, request.body, drainAt⟩

theorem answer_eq_answerBy (server : Server) (drainAt : Option Nat) (request : Request) :
    server.answer drainAt request =
      (server.answerBy (m := Id) MethodHandler.run drainAt request).run := by
  rw [answer, answerBy]
  cases server.route request with
  | refused response => rfl
  | accepted service method wire => exact call_eq_run server method _

/-- The server refuses a request at once: it answers with a response that does not depend on the
body, and runs no handler. -/
structure Refuses (server : Server) (drainAt : Option Nat) (request : Request) (status : Nat)
    (response : Response) : Prop where
  hasStatus : response.status = status
  answers : ∀ body : RequestBody,
    server.answer drainAt { request with body } = some (Transcript.ofResponse response 0)
  runsNothing : ∀ (body : RequestBody) {m : Type → Type} [Monad m]
    (run : MethodHandler → Call → m (Option Transcript)),
    server.answerBy run drainAt { request with body } =
      pure (some (Transcript.ofResponse response 0))

/-- All that the server does with a request is to run a handler once, on the call in a format with
the headers and the body that came, and what the handler does with that call is the answer. -/
structure RunsOnce (server : Server) (drainAt : Option Nat) (request : Request)
    (handler : MethodHandler) (wire : WireFormat) : Prop where
  handles : MethodHandler.Handles ⟨wire, request.headers, request.body, drainAt⟩ handler
    (server.answer drainAt request)
  once : ∀ {m : Type → Type} [Monad m] (run : MethodHandler → Call → m (Option Transcript)),
    server.answerBy run drainAt request =
      run handler ⟨wire, request.headers, request.body, drainAt⟩

/-- A request for a name in a service passes the filter. -/
structure Admits (server : Server) (request : Request) (service : Service) (name : String) :
    Prop extends server.Asks request service name where
  isEnabled : ∀ protocol, Protocol.ofHeaders? request.headers = some protocol →
    server.settings.protocols.isEnabled protocol = true

/-- A request that passes the filter comes by the right HTTP method, in some format. -/
structure Formats (server : Server) (request : Request) (service : Service) (name : String)
    (wire : WireFormat) : Prop extends server.Admits request service name where
  isPost : request.method = "POST"
  format : WireFormat.ofHeaders? request.headers = some wire

/-- What becomes of a request is decided in a fixed order: by its path, its protocol, its HTTP
method, its format, the name under which a handler is registered, and whether the handler can be
called in the format. -/
structure DecidesInOrder (server : Server) (drainAt : Option Nat) (request : Request) : Prop where
  runs : server.answer drainAt request =
    (server.answerBy (m := Id) MethodHandler.run drainAt request).run
  path : (∀ service name, ¬ server.Asks request service name) →
    server.Refuses drainAt request 404 (Response.bare 404)
  protocol : ∀ service name, server.Asks request service name →
    ∀ protocol, Protocol.ofHeaders? request.headers = some protocol →
      server.settings.protocols.isEnabled protocol = false →
        server.Refuses drainAt request 501
          (Response.rejection 501 (protocol.name ++ " protocol is disabled"))
  httpMethod : ∀ service name, server.Admits request service name → request.method ≠ "POST" →
    server.Refuses drainAt request 405 methodNotAllowed ∧
      methodNotAllowed.headers.values "allow" = [Bytes.ofAscii "POST"]
  format : ∀ service name, server.Admits request service name → request.method = "POST" →
    WireFormat.ofHeaders? request.headers = none →
      server.Refuses drainAt request 415 unsupportedMediaType
  methodName : ∀ service name wire, server.Formats request service name wire →
    (∀ handler, (name, handler) ∉ server.registered service) →
      server.Refuses drainAt request 404 (Response.rejection 404 "not found")
  kind : ∀ service name wire, server.Formats request service name wire →
    ∀ handler, (name, handler) ∈ server.registered service →
      handler.kind.accepts wire = false →
        server.Refuses drainAt request 415 unsupportedMediaType
  handler : ∀ service name wire, server.Formats request service name wire →
    ∀ handler, (name, handler) ∈ server.registered service →
      handler.kind.accepts wire = true → server.RunsOnce drainAt request handler wire

section Deciding

variable {server : Server} {drainAt : Option Nat} {request : Request} {service : Service}
  {name : String}

/-- The route of a request does not depend on its body. -/
theorem refuses_of_route (response : Response)
    (refused : server.route request = .refused response) :
    server.Refuses drainAt request response.status response := by
  have same : ∀ body, server.route { request with body } = .refused response :=
    fun _ => refused
  refine ⟨rfl, fun body => ?_, fun body m monad run => ?_⟩
  · rw [answer, same body]
  · rw [answerBy, same body]

/-- A request that a method accepts is handled by the handler of the method. -/
theorem runsOnce_of_route {method : Method} {wire : WireFormat}
    (accepted : server.route request = .accepted service method wire) :
    server.RunsOnce drainAt request (server.handlerOf method) wire := by
  refine ⟨?_, fun {m} monad run => ?_⟩
  · rw [answer, accepted]
    change MethodHandler.Handles _ _ (server.call method _)
    rw [call_eq_run]
    exact MethodHandler.handles_run _ _
  · rw [answerBy, accepted]

theorem route_of_admits (admits : server.Admits request service name) :
    server.route request = dispatch service name request := by
  have passes : server.disabledProtocol? request.headers = none := by
    rw [disabledProtocol?, Option.filter_eq_none_iff]
    intro protocol found
    simp [admits.isEnabled protocol found]
  rw [route_of_asks admits.toAsks, admission, passes]

theorem method?_eq_some {method : Method} (listed : method ∈ service.methods) :
    service.method? method.name = some method := by
  revert method
  cases service <;> decide

theorem method?_eq_none (unknown : ∀ handler, (name, handler) ∉ server.registered service) :
    service.method? name = none := by
  refine List.find?_eq_none.mpr fun method listed => ?_
  have notNamed : method.name ≠ name := fun named =>
    unknown (server.handlerOf method) (mem_registered_iff.mpr ⟨method, listed, named, rfl⟩)
  simpa using notNamed

/-- What becomes of a request in some format, by its method. -/
theorem route_of_formats {wire : WireFormat} (formats : server.Formats request service name wire) :
    server.route request =
      match service.method? name with
      | none => .refused (Response.rejection 404 "not found")
      | some method =>
        if method.kind.accepts wire then .accepted service method wire
        else .refused unsupportedMediaType := by
  rw [route_of_admits formats.toAdmits, dispatch, if_neg (not_not_intro formats.isPost),
    formats.format]

end Deciding

theorem decidesInOrder (server : Server) (drainAt : Option Nat) (request : Request) :
    server.DecidesInOrder drainAt request where
  runs := answer_eq_answerBy server drainAt request
  path asksNothing := refuses_of_route _ (route_of_not_asks asksNothing)
  protocol service name asks protocol detected switchedOff := by
    refine refuses_of_route (disabled protocol) ?_
    rw [route_of_asks asks, admission, disabledProtocol?_of_ofHeaders? detected, switchedOff]
    rfl
  httpMethod service name admits notPost := by
    refine ⟨refuses_of_route methodNotAllowed ?_, by decide⟩
    rw [route_of_admits admits, dispatch, if_pos notPost]
  format service name admits isPost noFormat := by
    refine refuses_of_route unsupportedMediaType ?_
    rw [route_of_admits admits, dispatch, if_neg (not_not_intro isPost), noFormat]
  methodName service name wire formats unknown := by
    refine refuses_of_route (Response.rejection 404 "not found") ?_
    rw [route_of_formats formats, method?_eq_none unknown]
  kind service name wire formats handler isRegistered refused := by
    obtain ⟨method, listed, rfl, rfl⟩ := mem_registered_iff.mp isRegistered
    rw [kind_handlerOf] at refused
    refine refuses_of_route unsupportedMediaType ?_
    rw [route_of_formats formats, method?_eq_some listed]
    simp [refused]
  handler service name wire formats handler isRegistered accepted := by
    obtain ⟨method, listed, rfl, rfl⟩ := mem_registered_iff.mp isRegistered
    rw [kind_handlerOf] at accepted
    have route : server.route request = .accepted service method wire := by
      rw [route_of_formats formats, method?_eq_some listed]
      simp [accepted]
    exact runsOnce_of_route route

/-- Runs a handler, and counts it. -/
def countedRun (handler : MethodHandler) (call : Call) : StateM Nat (Option Transcript) := do
  modify (· + 1)
  return handler.run call

/-- The echo of a text is asked for, and runs once. Asked for by another HTTP method while its
protocol is switched off, nothing runs, and the answer is about the protocol. -/
theorem decidesInOrder_of_hiRequest :
    Formats ⟨{}⟩ (Echo.hiRequest Echo.noteHeaders) .echo "Echo" (.grpc .proto) ∧
      RunsOnce ⟨{}⟩ none (Echo.hiRequest Echo.noteHeaders)
        (.unary fun call => Echo.echo call.metadata) (.grpc .proto) ∧
      (∃ time, Server.answer ⟨{}⟩ none (Echo.hiRequest Echo.noteHeaders) =
        some (Transcript.ofResponse (Response.unary (.grpc .proto)
          (.ok (Echo.reply [("content-type", "application/grpc"), ("x-note", "a")] "hi")))
          time)) ∧
      ((answerBy ⟨{}⟩ countedRun none (Echo.hiRequest Echo.noteHeaders)).run 0).run.2 = 1 ∧
      Refuses ⟨{ protocols := { grpc := false } }⟩ none
        { Echo.hiRequest Echo.noteHeaders with method := "GET" } 501
        (Response.rejection 501 "gRPC protocol is disabled") := by
  have asks : Asks ⟨{}⟩ (Echo.hiRequest Echo.noteHeaders) .echo "Echo" :=
    ⟨by decide, by decide, by decide, by decide⟩
  have enabled : ∀ protocol,
      Protocol.ofHeaders? (Echo.hiRequest Echo.noteHeaders).headers = some protocol →
        (⟨{}⟩ : Server).settings.protocols.isEnabled protocol = true := by
    intro protocol _
    cases protocol <;> rfl
  have formats : Formats ⟨{}⟩ (Echo.hiRequest Echo.noteHeaders) .echo "Echo" (.grpc .proto) :=
    ⟨⟨asks, enabled⟩, rfl, by decide⟩
  have runs := (decidesInOrder ⟨{}⟩ none (Echo.hiRequest Echo.noteHeaders)).handler
    .echo "Echo" (.grpc .proto) formats (.unary fun call => Echo.echo call.metadata)
    (.head _) rfl
  refine ⟨formats, runs, ?_, ?_, ?_⟩
  · have shown : Metadata.ofHeaders Echo.noteHeaders =
        [("content-type", "application/grpc"), ("x-note", "a")] := by decide
    rw [← shown]
    exact Echo.answer_eq_of_asks (Echo.asksEcho_hiRequest (by decide) (by decide))
      (Request.isInTime_of_unlimited (by decide)) none
  · rw [runs.once]
    rfl
  · have switchedOff : Asks ⟨{ protocols := { grpc := false } }⟩
        { Echo.hiRequest Echo.noteHeaders with method := "GET" } .echo "Echo" :=
      ⟨by decide, by decide, by decide, by decide⟩
    exact (decidesInOrder ⟨{ protocols := { grpc := false } }⟩ none
      { Echo.hiRequest Echo.noteHeaders with method := "GET" }).protocol
        .echo "Echo" switchedOff .grpc (by decide) rfl

end Server

end RpcEcho
