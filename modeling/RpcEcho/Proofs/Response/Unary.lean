import RpcEcho.Response.Head
import RpcEcho.Proofs.Envelope.Schedule
import RpcEcho.Proofs.Header.Metadata
import RpcEcho.Proofs.Proto.Records

/-!
# Responses to unary calls, as callers read them

A caller reads the frames of a body with the framing of the format, and finds trailers in one of
three places: among the headers, behind the body, or in a last frame. Each place holds exactly the
trailers of the reply and what the protocol adds.
-/

namespace RpcEcho

/-! ## Reading -/

/-- The frames of a body in a format, unless its octets are no whole frames. A body without
envelopes is one message. -/
def WireFormat.frames? (wire : WireFormat) (octets : Bytes) : Option (List Envelope.Frame) :=
  if wire.isEnveloped then
    let reader : Envelope.Decoder := { limit := Bytes.wordBound - 1, pending := octets }
    if reader.drain.failure = none ∧ reader.drain.left.pending = [] then some reader.drain.frames
    else none
  else some [⟨Flags.message, octets⟩]

/-- More octets than one piece of a body can have. An envelope tells the length of its payload in
thirty-two bits, and lengths inside a payload have sixty-four. -/
def WireFormat.pieceBound (wire : WireFormat) : Nat :=
  if wire.isEnveloped then Bytes.wordBound + Envelope.headerLength else Proto.Varint.bound

theorem WireFormat.frames?_written {wire : WireFormat} (enveloped : wire.isEnveloped = true)
    (sent : List Envelope.Frame)
    (fits : ∀ frame ∈ sent, frame.payload.length < Bytes.wordBound) :
    wire.frames? (sent.flatMap Envelope.Frame.wrap) = some sent := by
  have drained := Envelope.Decoder.drain_written (Bytes.wordBound - 1) sent
    fun frame member => ⟨Nat.le_sub_one_of_lt (fits frame member), fits frame member⟩
  rw [frames?, if_pos enveloped]
  simp only [drained]
  rfl

/-- What is read as frames is these frames, written, and none is too long for its length field. -/
theorem WireFormat.eq_flatMap_of_frames? {wire : WireFormat} (enveloped : wire.isEnveloped = true)
    {octets : Bytes} {frames : List Envelope.Frame} (isRead : wire.frames? octets = some frames) :
    octets = frames.flatMap Envelope.Frame.wrap ∧
      ∀ frame ∈ frames, frame.payload.length < Bytes.wordBound := by
  rw [frames?, if_pos enveloped] at isRead
  obtain ⟨kept, bounded⟩ := Envelope.Decoder.drain_conserves
    { limit := Bytes.wordBound - 1, pending := octets }
  have positive : 0 < Bytes.wordBound := by decide
  by_cases whole : ({ limit := Bytes.wordBound - 1, pending := octets } :
        Envelope.Decoder).drain.failure = none ∧
      ({ limit := Bytes.wordBound - 1, pending := octets } :
        Envelope.Decoder).drain.left.pending = []
  · simp only [if_pos whole] at isRead
    cases isRead
    rw [whole.2, List.append_nil] at kept
    refine ⟨kept.symm, ?_⟩
    intro frame member
    exact Nat.lt_of_le_sub_one positive (bounded frame member)
  · simp only [if_neg whole] at isRead
    cases isRead

namespace ResponseFrame

/-- The octets of frames, one behind the other. -/
def octetsOf (frames : List ResponseFrame) : Bytes :=
  frames.flatMap fun
    | .data octets => octets
    | .trailers _ => []

/-- What stands in the HTTP trailers behind the octets. -/
def trailersOf (frames : List ResponseFrame) : List (String × Bytes) :=
  frames.flatMap fun
    | .data _ => []
    | .trailers headers => headers.toList

end ResponseFrame

/-! ## What a response says -/

namespace Response

/-- What trailers hold when a call succeeded: the number of success, and what the reply adds. -/
def WithStatus (added : String → Bytes → Prop) (name : String) (value : Bytes) : Prop :=
  (name = Trailers.statusName ∧ value = Bytes.ofAscii "0") ∨ added name value

/-- What the head of a response holds: its content type and, without envelopes, what the reply adds,
under names that say so. A name that would be too long is left out. -/
def InHead (wire : WireFormat) (added : String → Bytes → Prop) (name : String) (value : Bytes) :
    Prop :=
  (name = "content-type" ∧ value = Bytes.ofAscii wire.contentType) ∨
    (wire.isEnveloped = false ∧ (Utf8.encode name).length ≤ HeaderName.maxLength ∧
      ∃ own, name = "trailer-" ++ own ∧ added own value)

/-- What stands behind the message in the frames of a body: in gRPC-Web a frame of trailers, one
line for each. -/
def EndsWith (wire : WireFormat) (added : String → Bytes → Prop)
    (ending : List Envelope.Frame) : Prop :=
  if wire.protocol = .grpcWeb then
    ∃ pairs, HoldsExactly pairs (WithStatus added) ∧
      ending = [⟨Flags.trailers, pairs.flatMap Trailers.line⟩]
  else ending = []

/-- A response of success in a format, which holds exactly the added trailers where the format has
them. -/
structure Succeeds (response : Response) (wire : WireFormat) (added : String → Bytes → Prop) :
    Prop where
  status : response.status = 200
  head : HoldsExactly response.headers.toList (InHead wire added)
  trailers : HoldsExactly (ResponseFrame.trailersOf response.frames)
    fun name value => wire.protocol = .grpc ∧ WithStatus added name value

/-- No piece of the body is too long. -/
def Fits (response : Response) (wire : WireFormat) : Prop :=
  ∀ octets, ResponseFrame.data octets ∈ response.frames → octets.length < wire.pieceBound

/-- The frames of a body are one message with a payload and what belongs behind it. -/
def Carries (response : Response) (wire : WireFormat) (added : String → Bytes → Prop)
    (payload : Bytes) : Prop :=
  ∃ ending, wire.frames? (ResponseFrame.octetsOf response.frames) =
      some (⟨Flags.message, payload⟩ :: ending) ∧
    EndsWith wire added ending

/-! ## Trailers among the headers -/

/-- What a trailer becomes in the head. -/
def prefixed? (pair : String × Bytes) : Option (String × Bytes) :=
  (HeaderName.parse? (Utf8.encode ("trailer-" ++ pair.1))).map fun name => (name, pair.2)

theorem prefixed?_eq_some_iff {own name : String} {ownValue value : Bytes}
    (wellFormed : HeaderName.IsWellFormed own) :
    prefixed? (own, ownValue) = some (name, value) ↔
      (Utf8.encode name).length ≤ HeaderName.maxLength ∧ name = "trailer-" ++ own ∧
        ownValue = value := by
  have parsed : HeaderName.parse? (Utf8.encode ("trailer-" ++ own)) = _ :=
    HeaderName.parse?_append (by decide) (by decide) wellFormed
  rw [prefixed?, Option.map_eq_some_iff, parsed]
  constructor
  · rintro ⟨found, isFound, same⟩
    cases same
    split at isFound
    · rename_i short
      cases isFound
      exact ⟨short, rfl, rfl⟩
    · cases isFound
  · rintro ⟨short, rfl, rfl⟩
    exact ⟨_, if_pos short, rfl⟩

theorem withTrailers_eq_foldl (headers trailers : Headers) :
    withTrailers headers trailers =
      trailers.toList.foldl (Headers.putPicked Headers.append prefixed?) headers := by
  rw [withTrailers]
  congr 1
  funext headers pair
  rw [Headers.putPicked, prefixed?]
  cases HeaderName.parse? (Utf8.encode ("trailer-" ++ pair.1)) <;> rfl

theorem trailer_append_ne (own : String) : "trailer-" ++ own ≠ "content-type" := by
  intro same
  have first : ("trailer-" ++ own).toList.head? = "content-type".toList.head? :=
    congrArg (fun name : String => name.toList.head?) same
  have isT : ("trailer-".toList ++ own.toList).head? = some 't' := rfl
  rw [String.toList_append, isT] at first
  exact absurd first (by decide)

section Formats

variable {pairs : List (String × Bytes)} {added : String → Bytes → Prop}

theorem holdsExactly_withTrailers (holds : HoldsExactly pairs added)
    (wellFormed : ∀ name value, added name value → HeaderName.IsWellFormed name)
    (codec : Codec) :
    HoldsExactly
      (withTrailers (contentTyped (WireFormat.connectUnary codec).contentType)
        ⟨Headers.entriesOf pairs⟩).toList
      (InHead (.connectUnary codec) added) := by
  have opened := holds.filterMap prefixed?
    (fun pair other picked otherPicked isAdded isPicked otherAdded isOtherPicked same => by
      have spelled := ((prefixed?_eq_some_iff (wellFormed _ _ isAdded)).mp isPicked).2.1
      have otherSpelled :=
        ((prefixed?_eq_some_iff (wellFormed _ _ otherAdded)).mp isOtherPicked).2.1
      rw [spelled, otherSpelled] at same
      exact String.append_right_inj _ |>.mp same)
  have all := opened.cons
    (fun value isOpened => by
      obtain ⟨own, ownValue, isAdded, isPicked⟩ := isOpened
      exact trailer_append_ne own
        ((prefixed?_eq_some_iff (wellFormed _ _ isAdded)).mp isPicked).2.1.symm)
    (Bytes.ofAscii (WireFormat.connectUnary codec).contentType)
  have shape : withTrailers (contentTyped (WireFormat.connectUnary codec).contentType)
      ⟨Headers.entriesOf pairs⟩ =
        ⟨(contentTyped (WireFormat.connectUnary codec).contentType).entries ++
          Headers.entriesOf (pairs.filterMap prefixed?)⟩ := by
    rw [withTrailers_eq_foldl, Headers.toList_entriesOf]
    exact Headers.foldl_put Headers.putsNew_append prefixed? _ _ all.distinct
  rw [shape, Headers.toList_append_entriesOf]
  refine all.congr fun name value => or_congr Iff.rfl ?_
  constructor
  · rintro ⟨own, ownValue, isAdded, isPicked⟩
    obtain ⟨short, spelled, rfl⟩ := (prefixed?_eq_some_iff (wellFormed _ _ isAdded)).mp isPicked
    exact ⟨rfl, short, own, spelled, isAdded⟩
  · rintro ⟨_, short, own, spelled, isAdded⟩
    exact ⟨own, value, isAdded,
      (prefixed?_eq_some_iff (wellFormed _ _ isAdded)).mpr ⟨short, spelled, rfl⟩⟩

/-! ## The formats -/

/-- The trailers of success hold the number of success behind what was added. -/
theorem statusTrailers_ok (holds : HoldsExactly pairs added)
    (free : ∀ name value, added name value → HeaderName.isProtocol name = false) :
    ∃ all, ResponseFrame.statusTrailers (.ok ⟨Headers.entriesOf pairs⟩) =
        ⟨Headers.entriesOf all⟩ ∧
      HoldsExactly all (WithStatus added) := by
  -- The status belongs to a protocol, so no added trailer can have its name.
  have isNew : ∀ value, ¬ added Trailers.statusName value := fun value isAdded =>
    absurd (free _ _ isAdded) (by decide)
  exact Headers.exists_insert_entriesOf holds isNew (Bytes.ofAscii "0")

theorem holdsExactly_contentTyped {wire : WireFormat} (enveloped : wire.isEnveloped = true) :
    HoldsExactly (contentTyped wire.contentType).toList (InHead wire added) := by
  have nothing : HoldsExactly [] (fun (_ : String) (_ : Bytes) => False) :=
    holdsExactly_nil fun _ _ impossible => impossible
  have only : HoldsExactly [("content-type", Bytes.ofAscii wire.contentType)] _ :=
    nothing.cons (fun _ impossible => impossible) _
  refine only.congr fun name value => or_congr Iff.rfl ?_
  simp [enveloped]

/-- The length of the octets of an envelope tells whether its length field holds the length. -/
theorem length_lt_of_wrap_lt {wire : WireFormat} (enveloped : wire.isEnveloped = true)
    {payload : Bytes} {flags : Flags}
    (fits : (Envelope.wrap payload flags).length < wire.pieceBound) :
    payload.length < Bytes.wordBound := by
  rw [WireFormat.pieceBound, if_pos enveloped, Envelope.length_wrap] at fits
  omega

theorem ofPayload_connectUnary (holds : HoldsExactly pairs added)
    (wellFormed : ∀ name value, added name value → HeaderName.IsWellFormed name)
    (codec : Codec) (payload : Bytes) :
    let response := ofPayload (.connectUnary codec) (.ok (payload, ⟨Headers.entriesOf pairs⟩))
    response.Succeeds (.connectUnary codec) added ∧
      (response.Fits (.connectUnary codec) →
        response.Carries (.connectUnary codec) added payload ∧
          payload.length < Proto.Varint.bound) := by
  refine ⟨⟨rfl, holdsExactly_withTrailers holds wellFormed codec, ?_⟩,
    fun fits => ⟨⟨[], ?_, rfl⟩, fits payload List.mem_cons_self⟩⟩
  · exact holdsExactly_nil fun _ _ inTrailers => Protocol.noConfusion inTrailers.1
  · simp [ofPayload, streamHead, ResponseFrame.octetsOf, WireFormat.frames?,
      WireFormat.isEnveloped]

theorem ofPayload_grpc (holds : HoldsExactly pairs added)
    (free : ∀ name value, added name value → HeaderName.isProtocol name = false)
    (codec : Codec) (payload : Bytes) :
    let response := ofPayload (.grpc codec) (.ok (payload, ⟨Headers.entriesOf pairs⟩))
    response.Succeeds (.grpc codec) added ∧
      (response.Fits (.grpc codec) →
        response.Carries (.grpc codec) added payload ∧ payload.length < Proto.Varint.bound) := by
  obtain ⟨all, told, allHold⟩ := statusTrailers_ok holds free
  have frames : (ofPayload (.grpc codec) (.ok (payload, ⟨Headers.entriesOf pairs⟩))).frames =
      [.message payload, .trailers ⟨Headers.entriesOf all⟩] := by
    rw [← told]
    rfl
  refine ⟨⟨rfl, holdsExactly_contentTyped rfl, ?_⟩, fun fits => ?_⟩
  · have trailers : ResponseFrame.trailersOf
        [.message payload, .trailers ⟨Headers.entriesOf all⟩] = all :=
      (List.append_nil _).trans (Headers.toList_entriesOf all)
    rw [frames, trailers]
    exact allHold.congr fun name value => (and_iff_right rfl).symm
  · have short := length_lt_of_wrap_lt rfl
      (fits (Envelope.wrap payload Flags.message) (frames ▸ List.mem_cons_self))
    refine ⟨⟨[], ?_, rfl⟩, Nat.lt_trans short (by decide)⟩
    rw [frames]
    exact WireFormat.frames?_written rfl [⟨Flags.message, payload⟩] (by simpa using short)

theorem ofPayload_grpcWeb (holds : HoldsExactly pairs added)
    (free : ∀ name value, added name value → HeaderName.isProtocol name = false)
    (codec : Codec) (payload : Bytes) :
    let response := ofPayload (.grpcWeb codec) (.ok (payload, ⟨Headers.entriesOf pairs⟩))
    response.Succeeds (.grpcWeb codec) added ∧
      (response.Fits (.grpcWeb codec) →
        response.Carries (.grpcWeb codec) added payload ∧ payload.length < Proto.Varint.bound) := by
  obtain ⟨all, told, allHold⟩ := statusTrailers_ok holds free
  let block := all.flatMap Trailers.line
  have frames : (ofPayload (.grpcWeb codec) (.ok (payload, ⟨Headers.entriesOf pairs⟩))).frames =
      [.message payload, .data (Envelope.wrap block Flags.trailers)] := by
    have last : ResponseFrame.endOfStream (.grpcWeb codec) (.ok ⟨Headers.entriesOf pairs⟩) =
        .data (Envelope.wrap block Flags.trailers) := by
      rw [ResponseFrame.endOfStream, told, Trailers.frame, Trailers.block,
        Headers.toList_entriesOf]
    rw [← last]
    rfl
  refine ⟨⟨rfl, holdsExactly_contentTyped rfl, ?_⟩, fun fits => ?_⟩
  · rw [frames]
    exact holdsExactly_nil fun _ _ inTrailers => Protocol.noConfusion inTrailers.1
  · have short := length_lt_of_wrap_lt rfl
      (fits (Envelope.wrap payload Flags.message) (frames ▸ List.mem_cons_self))
    have shortBlock := length_lt_of_wrap_lt rfl
      (fits (Envelope.wrap block Flags.trailers)
        (frames ▸ List.mem_cons_of_mem _ List.mem_cons_self))
    refine ⟨⟨[⟨Flags.trailers, block⟩], ?_, all, allHold, rfl⟩, Nat.lt_trans short (by decide)⟩
    rw [frames]
    exact WireFormat.frames?_written rfl [⟨Flags.message, payload⟩, ⟨Flags.trailers, block⟩]
      (by simpa using ⟨short, shortBlock⟩)

theorem unary_of_encode {wire : WireFormat} {ο : Type} [Payload ο] {reply : Reply ο}
    {payload : Bytes} (encoded : Payload.encode wire.codec reply.message = .ok payload) :
    unary wire (.ok reply) = ofPayload wire (.ok (payload, reply.trailers)) := by
  simp [unary, Except.bind, Except.map, encoded]

/-- A reply that goes out in a format of unary calls is a response of success, which carries the
payload and the trailers of the reply. -/
theorem unary_ok {wire : WireFormat} (accepted : MethodKind.unary.accepts wire = true)
    (holds : HoldsExactly pairs added)
    (free : ∀ name value, added name value →
      HeaderName.isProtocol name = false ∧ HeaderName.IsWellFormed name)
    {ο : Type} [Payload ο] {reply : Reply ο} (trailers : reply.trailers = ⟨Headers.entriesOf pairs⟩)
    {payload : Bytes} (encoded : Payload.encode wire.codec reply.message = .ok payload) :
    let response := unary wire (.ok reply)
    response.Succeeds wire added ∧
      (response.Fits wire →
        response.Carries wire added payload ∧ payload.length < Proto.Varint.bound) := by
  have notOwned : ∀ name value, added name value → HeaderName.isProtocol name = false :=
    fun name value isAdded => (free name value isAdded).1
  rw [unary_of_encode encoded, trailers]
  cases wire with
  | connectUnary codec =>
      exact ofPayload_connectUnary holds (fun name value isAdded => (free name value isAdded).2)
        codec payload
  | connectStream codec => cases accepted
  | grpc codec => exact ofPayload_grpc holds notOwned codec payload
  | grpcWeb codec => exact ofPayload_grpcWeb holds notOwned codec payload

end Formats

end Response

end RpcEcho
