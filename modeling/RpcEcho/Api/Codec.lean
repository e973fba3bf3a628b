import RpcEcho.Api.Catalog
import RpcEcho.Proto.JsonForm
import RpcEcho.Status
import RpcEcho.WireFormat

/-!
# Payloads

The octets of a message in either codec, and the message of a payload. A payload of ASCII blanks
alone is the empty message in the JSON codec, as no octets are in the binary one.

* `Codec.encode`, `Codec.decode`: writing and reading.
* `Payload`: types whose values travel as messages.
-/

namespace RpcEcho

open Proto Api

namespace Codec

/-- Why a message cannot be written. -/
def unwritable (unnamed : JsonForm.Unnamed) : Status :=
  Status.of .internal ("failed to encode JSON message: Invalid variant " ++ toString unnamed.number)

/-- The status of a payload that is no message. -/
def unreadable : Codec → Status
  | json => Status.of .invalidArgument "failed to decode JSON message: "
  | proto => Status.of .invalidArgument "failed to decode proto message: "

/-- The payload of a message. -/
def encode (codec : Codec) (type : MessageType) (message : Message) : Except Status Bytes :=
  match codec with
  | proto => .ok (Binary.encode catalog type message)
  | json =>
    match JsonForm.ofMessage catalog type message with
    | .ok object => .ok object.encode
    | .error unnamed => .error (unwritable unnamed)

/-- The message of a payload, if it is one. -/
def decode? (codec : Codec) (type : MessageType) (payload : Bytes) : Option Message :=
  match codec with
  | proto => Binary.decode? catalog type payload
  | json =>
    if payload.all Bytes.isBlank then some []
    else (Json.parse? payload).bind (JsonForm.toMessage? catalog type)

/-- The message of a payload. -/
def decode (codec : Codec) (type : MessageType) (payload : Bytes) : Except Status Message :=
  match codec.decode? type payload with
  | some message => .ok message
  | none => .error codec.unreadable

end Codec

/-- Types whose values travel as messages. -/
class Payload (α : Type) where
  /-- The type of the messages. -/
  type : MessageType
  /-- The message of a value. -/
  toMessage : α → Message
  /-- The value of a message. -/
  ofMessage : Message → α

namespace Payload

variable {α : Type} [Payload α]

/-- The payload of a value. -/
def encode (codec : Codec) (value : α) : Except Status Bytes :=
  codec.encode (type α) (toMessage value)

/-- The value of a payload. -/
def decode (codec : Codec) (payload : Bytes) : Except Status α :=
  (codec.decode (type α) payload).map ofMessage

end Payload

end RpcEcho
