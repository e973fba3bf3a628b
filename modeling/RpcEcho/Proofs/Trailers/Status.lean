import RpcEcho.Response.Frame
import RpcEcho.Proofs.Envelope.Schedule
import RpcEcho.Proofs.Text.Percent
import RpcEcho.Proofs.Trailers.Block

/-!
# Statuses in trailers

A failed call tells the number of its code and, if it has one, its message, percent-coded. As HTTP
trailers these are read back as they are. As lines of a block they are read back trimmed, which
costs a message the spaces at its ends.
-/

namespace RpcEcho.Trailers

/-- Trailers that tell a code and perhaps a message, each once, and nothing else. -/
structure Tells (trailers : Headers) (code : Code) (message : Option String) : Prop where
  distinct : trailers.names.Nodup
  names : ∀ name, name ∈ trailers.names ↔
    name = statusName ∨ name = messageName ∧ message.isSome = true
  code : trailers.values statusName = [Bytes.ofAscii code.number.repr]
  message : (trailers.values messageName).map Percent.decode = message.toList

/-- Trailers tell no more than one message. -/
theorem Tells.message_unique {trailers : Headers} {code other : Code}
    {message another : Option String}
    (tells : Tells trailers code message) (tellsOther : Tells trailers other another) :
    message = another := by
  have same : message.toList = another.toList := tells.message.symm.trans tellsOther.message
  cases message <;> cases another <;> simp_all

/-- The entries of a status: its number, and its coded message if there is one. -/
def statusEntries (code : Code) (coded : Option Bytes) : Headers :=
  ⟨(statusName, [Bytes.ofAscii code.number.repr]) ::
    coded.toList.map fun value => (messageName, [value])⟩

theorem statusTrailers_error (status : Status) :
    ResponseFrame.statusTrailers (.error status) =
      statusEntries status.code (status.message.map Percent.encode) := by
  obtain ⟨code, message⟩ := status
  cases message <;> rfl

theorem tells_statusEntries (code : Code) (coded : Option Bytes) :
    Tells (statusEntries code coded) code (coded.map Percent.decode) := by
  cases coded with
  | none =>
      exact ⟨by simp [Headers.names, statusEntries], by simp [Headers.names, statusEntries],
        rfl, rfl⟩
  | some value =>
      have apart : statusName ≠ messageName := by decide
      exact ⟨by simp [Headers.names, statusEntries, apart],
        by simp [Headers.names, statusEntries], rfl, rfl⟩

/-- HTTP trailers tell a status as it is. -/
theorem tells_statusTrailers (status : Status) :
    Tells (ResponseFrame.statusTrailers (.error status)) status.code status.message := by
  have tells := tells_statusEntries status.code (status.message.map Percent.encode)
  have readBack : (status.message.map Percent.encode).map Percent.decode = status.message := by
    rw [Option.map_map]
    have inverse : Percent.decode ∘ Percent.encode = id := funext Percent.decode_encode
    rw [inverse, Option.map_id, id]
  rw [readBack] at tells
  rw [statusTrailers_error]
  exact tells

/-! ## As a block of lines -/

/-- The block of a failed call. -/
def statusBlock (status : Status) : Bytes :=
  block (ResponseFrame.statusTrailers (.error status))

theorem isWellFormed_statusTrailers (status : Status) :
    (ResponseFrame.statusTrailers (.error status)).IsWellFormed := by
  have codeValid : HeaderValue.isValid (Bytes.ofAscii status.code.number.repr) = true := by
    cases status.code <;> decide
  have names := (tells_statusTrailers status).names
  refine ⟨(tells_statusTrailers status).distinct, ?_, ?_⟩
  · intro name member
    rcases (names name).mp member with rfl | ⟨rfl, _⟩ <;> decide
  · intro entry member
    rw [statusTrailers_error, statusEntries] at member
    rcases List.mem_cons.mp member with rfl | inMessage
    · exact ⟨List.cons_ne_nil _ _, by simpa using codeValid⟩
    · obtain ⟨value, isCoded, rfl⟩ := List.mem_map.mp inMessage
      obtain ⟨message, _, rfl⟩ := Option.map_eq_some_iff.mp (Option.mem_toList.mp isCoded)
      exact ⟨List.cons_ne_nil _ _, by simpa using Percent.isValid_encode message⟩

theorem trimmed_statusEntries (code : Code) (coded : Option Bytes) :
    (statusEntries code coded).trimmed = statusEntries code (coded.map Bytes.trim) := by
  have number : Bytes.trim (Bytes.ofAscii code.number.repr) = Bytes.ofAscii code.number.repr := by
    cases code <;> decide
  cases coded <;> simp [Headers.trimmed, statusEntries, number]

/-- A block tells the code as it is, and the message without the spaces at its ends. -/
theorem tells_ofBlock_statusBlock (status : Status) :
    Tells (ofBlock (statusBlock status)) status.code
      (status.message.map Text.withoutOuterSpaces) := by
  have tells := tells_statusEntries status.code
    ((status.message.map Percent.encode).map Bytes.trim)
  have readBack : ((status.message.map Percent.encode).map Bytes.trim).map Percent.decode =
      status.message.map Text.withoutOuterSpaces := by
    rw [Option.map_map, Option.map_map]
    have inverse : (Percent.decode ∘ Bytes.trim) ∘ Percent.encode = Text.withoutOuterSpaces :=
      funext Percent.decode_trim_encode
    rw [inverse]
  rw [readBack] at tells
  rw [statusBlock, ofBlock_block (isWellFormed_statusTrailers status), statusTrailers_error,
    trimmed_statusEntries]
  exact tells

/-- A message survives a block of lines exactly if no space stands at its ends. -/
theorem tells_ofBlock_statusBlock_iff (status : Status) :
    Tells (ofBlock (statusBlock status)) status.code
        status.message ↔
      ∀ message ∈ status.message,
        message.toList.head? ≠ some ' ' ∧ message.toList.getLast? ≠ some ' ' := by
  have trimmed := tells_ofBlock_statusBlock status
  have survives : Tells (ofBlock (statusBlock status))
      status.code status.message ↔ status.message.map Text.withoutOuterSpaces = status.message := by
    constructor
    · intro tells
      exact trimmed.message_unique tells
    · intro same
      rw [same] at trimmed
      exact trimmed
  rw [survives]
  cases status.message with
  | none => simp
  | some message => simp [Text.withoutOuterSpaces_eq_self_iff]

/-! ## As the last frame of gRPC-Web -/

/-- The last frame of a failed call in gRPC-Web is read as one frame, whose block tells the code and
the message without the spaces at its ends: the message itself exactly if it has none there. -/
theorem endOfStream_grpcWeb_tells (codec : Codec) (status : Status) (limit : Nat)
    (short : (statusBlock status).length < Bytes.wordBound)
    (taken : (statusBlock status).length ≤ limit) :
    ∃ octets, ResponseFrame.endOfStream (.grpcWeb codec) (.error status) = .data octets ∧
      (({ limit } : Envelope.Decoder).push octets).drain =
        ⟨[⟨Flags.trailers, statusBlock status⟩], none, { limit }⟩ ∧
      Tells (ofBlock (statusBlock status)) status.code
        (status.message.map Text.withoutOuterSpaces) ∧
      (Tells (ofBlock (statusBlock status)) status.code status.message ↔
        ∀ message ∈ status.message,
          message.toList.head? ≠ some ' ' ∧ message.toList.getLast? ≠ some ' ') := by
  have drained := Envelope.Decoder.drain_written limit [⟨Flags.trailers, statusBlock status⟩]
    (by simpa using ⟨taken, short⟩)
  rw [List.flatMap_singleton] at drained
  exact ⟨_, rfl, drained, tells_ofBlock_statusBlock status, tells_ofBlock_statusBlock_iff status⟩

theorem endOfStream_grpcWeb_tells_notFound :
    let status := Status.of .notFound "no such key"
    (statusBlock status).length < Bytes.wordBound ∧
      (statusBlock status).length ≤ Envelope.maxPayload ∧
      ∃ octets, ResponseFrame.endOfStream (.grpcWeb .proto) (.error status) = .data octets ∧
        (({ limit := Envelope.maxPayload } : Envelope.Decoder).push octets).drain =
          ⟨[⟨Flags.trailers, statusBlock status⟩], none, { limit := Envelope.maxPayload }⟩ ∧
        Tells (ofBlock (statusBlock status)) .notFound (some "no such key") := by
  have short : (statusBlock (Status.of .notFound "no such key")).length < Bytes.wordBound := by
    decide
  have taken : (statusBlock (Status.of .notFound "no such key")).length ≤ Envelope.maxPayload := by
    decide
  obtain ⟨octets, isLast, drained, _, exact_iff⟩ :=
    endOfStream_grpcWeb_tells .proto (Status.of .notFound "no such key") _ short taken
  refine ⟨short, taken, octets, isLast, drained, exact_iff.mpr ?_⟩
  intro message isMessage
  cases isMessage
  exact ⟨by decide, by decide⟩

/-- The message of a status that begins with a space comes without it. -/
theorem not_tells_of_space :
    let status := Status.of .notFound " a"
    (statusBlock status).length ≤ Envelope.maxPayload ∧
      Tells (ofBlock (statusBlock status)) .notFound (some "a") ∧
      ¬ Tells (ofBlock (statusBlock status)) status.code status.message := by
  have tells := tells_ofBlock_statusBlock (Status.of .notFound " a")
  have trimmed : (Status.of .notFound " a").message.map Text.withoutOuterSpaces = some "a" := by
    decide
  rw [trimmed] at tells
  refine ⟨by decide, tells, ?_⟩
  intro tellsAll
  exact absurd (tells.message_unique tellsAll) (by decide)

end RpcEcho.Trailers
