import RpcEcho.Request.Body
import RpcEcho.Envelope
import RpcEcho.Api.Codec

/-!
# Incoming messages

The messages of an enveloped request body: the parts that did not come yet, the octets that came
and hold no complete frame, and whether the end was seen.

* `Inbound.buffered?`: the next message, if it can be told without waiting for a part.
* `Inbound.atEnd`: what the end of the body means.
-/

namespace RpcEcho

open Proto

/-- An incoming message stream. -/
structure Inbound where
  body : RequestBody
  decoder : Envelope.Decoder := {}
  finished : Bool := false

namespace Inbound

/-- The stream of a body of which nothing was read. -/
def ofBody (body : RequestBody) : Inbound := { body }

/-- What asking for a message gives: one, none because the stream is over, or a failure. -/
abbrev Result (ι : Type) := Except Status (Option ι)

variable {ι : Type} [Payload ι]

/-- Whether a frame ends the stream. -/
def endsStream (frame : Envelope.Frame) : Bool := frame.flags.isEndStream || frame.flags.isTrailers

/-- What a frame gives. -/
def ofFrame (codec : Codec) (frame : Envelope.Frame) : Result ι :=
  if endsStream frame then .ok none
  else if frame.flags.isCompressed then .error Envelope.Error.compressed.status
  else if frame.flags ≠ Flags.message then
    .error (Envelope.Error.invalidFlags frame.flags).status
  else (Payload.decode codec frame.payload).map some

/-- What asking for a message gives without waiting for a part of the body, if that is enough. -/
def buffered? (codec : Codec) (inbound : Inbound) : Option (Result ι × Inbound) :=
  if inbound.finished then some (.ok none, inbound)
  else match inbound.decoder.next with
    | .error error => some (.error error.status, inbound)
    | .ok (none, _) => none
    | .ok (some frame, decoder) =>
      some (ofFrame codec frame, { inbound with decoder, finished := endsStream frame })

/-- Octets came. -/
def push (inbound : Inbound) (octets : Bytes) : Inbound :=
  { inbound with decoder := inbound.decoder.push octets }

/-- The stream without parts to come, or with only the given ones. -/
def withParts (inbound : Inbound) (parts : List BodyPart) : Inbound :=
  { inbound with body := { inbound.body with parts } }

/-- The status of a call whose body broke off. -/
def brokenOff (reason : String) : Status :=
  Status.of .canceled ("failed to read request body: " ++ reason)

/-- What the end of the body gives. -/
def atEnd (inbound : Inbound) : Result ι :=
  match inbound.body.ending, inbound.decoder.finish with
  | .broken reason, _ => .error (brokenOff reason)
  | _, .error error => .error error.status
  | _, .ok () => .ok none

end Inbound

end RpcEcho
