import RpcEcho.Status
import RpcEcho.Bytes

/-!
# Envelopes

A framed message: one octet of flags, the length of the payload in four octets, most significant
first, and the payload. Envelopes follow one another without anything between them.

* `Envelope.wrap`: the octets of one envelope, which begin with `Envelope.head`.
* `Envelope.header?`: flags and length at the front of some octets.
* `Envelope.Error`: what can be wrong with framed octets.
* `Envelope.Decoder`: an incremental reader, whose whole state is the octets not yet consumed.
-/

namespace RpcEcho

/-- The flags of an envelope. -/
structure Flags where
  /-- The octet that holds them. -/
  bits : UInt8
  deriving DecidableEq, Repr, Inhabited

namespace Flags

/-- The flags of a message. -/
def message : Flags := ⟨0⟩

/-- The flags of the frame that ends a stream and holds its status as JSON. -/
def endStream : Flags := ⟨0x02⟩

/-- The flags of the frame that ends a stream and holds trailers. -/
def trailers : Flags := ⟨0x80⟩

/-- Whether the payload is compressed. -/
def isCompressed (flags : Flags) : Bool := flags.bits &&& 0x01 != 0

/-- Whether the frame ends a stream with its status. -/
def isEndStream (flags : Flags) : Bool := flags.bits &&& 0x02 != 0

/-- Whether the frame ends a stream with trailers. -/
def isTrailers (flags : Flags) : Bool := flags.bits &&& 0x80 != 0

end Flags

namespace Envelope

/-- The octets before a payload. -/
def headerLength : Nat := 5

/-- The longest payload that is read, four mebibytes. -/
def maxPayload : Nat := 4194304

/-- The octets before a payload of a length: the flags, and the length modulo `2 ^ 32`. -/
def head (length : Nat) (flags : Flags) : Bytes := flags.bits :: Bytes.ofWord length

/-- The octets of one envelope. The length field holds the length of the payload modulo `2 ^ 32`. -/
def wrap (payload : Bytes) (flags : Flags) : Bytes :=
  flags.bits :: Bytes.ofWord payload.length ++ payload

theorem wrap_eq_head_append (payload : Bytes) (flags : Flags) :
    wrap payload flags = head payload.length flags ++ payload := rfl

/-- What can be wrong with framed octets. -/
inductive Error where
  /-- The octets end inside a header. -/
  | incompleteHeader (actual : Nat)
  /-- The octets end inside a payload. -/
  | incompletePayload (expected actual : Nat)
  /-- The flags mean nothing for a message. -/
  | invalidFlags (flags : Flags)
  /-- The payload is compressed. -/
  | compressed
  /-- The payload is longer than the reader takes. -/
  | messageTooLarge (size limit : Nat)
  deriving DecidableEq, Repr

namespace Error

/-- Two small hexadecimal digits of an octet. -/
def hexPair (octet : UInt8) : String :=
  String.ofList [Nat.digitChar (octet.toNat / 16), Nat.digitChar (octet.toNat % 16)]

/-- The words for an error. -/
def message : Error → String
  | incompleteHeader actual =>
    "incomplete envelope header: expected " ++ headerLength.repr ++ " bytes, got " ++ actual.repr
  | incompletePayload expected actual =>
    "incomplete envelope: expected " ++ expected.repr ++ " payload bytes, got " ++ actual.repr
  | invalidFlags flags => "invalid frame flags: 0x" ++ hexPair flags.bits
  | compressed => "compressed frames are not supported"
  | messageTooLarge size limit =>
    "message size " ++ size.repr ++ " exceeds limit " ++ limit.repr

/-- The code that a call ends with when its request has the error. -/
def code : Error → Code
  | compressed => .unimplemented
  | messageTooLarge .. => .resourceExhausted
  | incompleteHeader _ | incompletePayload .. | invalidFlags _ => .invalidArgument

/-- The status of a call whose request has the error. -/
def status (error : Error) : Status := Status.of error.code error.message

end Error

/-- A frame as read: its flags and its payload. -/
structure Frame where
  flags : Flags
  payload : Bytes
  deriving DecidableEq, Repr

/-- The octets of a frame. -/
def Frame.wrap (frame : Frame) : Bytes := Envelope.wrap frame.payload frame.flags

/-- Flags, payload length and the octets behind the header, where five octets are there. -/
def header? : Bytes → Option (Flags × Nat × Bytes)
  | flags :: first :: second :: third :: fourth :: rest =>
    some (⟨flags⟩, Bytes.wordOf first second third fourth, rest)
  | _ => none

/-- An incremental reader of envelopes. -/
structure Decoder where
  /-- The longest payload that it takes. -/
  limit : Nat := maxPayload
  /-- The octets that came and were not yet consumed. -/
  pending : Bytes := []
  deriving DecidableEq, Repr

namespace Decoder

/-- Takes in more octets. -/
def push (decoder : Decoder) (octets : Bytes) : Decoder :=
  { decoder with pending := decoder.pending ++ octets }

/-- Takes the next frame out, if all of it is there. An oversized length is an error as soon as the
header is there, and leaves the reader as it was. -/
def next (decoder : Decoder) : Except Error (Option Frame × Decoder) :=
  match header? decoder.pending with
  | none => .ok (none, decoder)
  | some (flags, length, rest) =>
    if decoder.limit < length then .error (.messageTooLarge length decoder.limit)
    else match Bytes.splitAt? length rest with
      | none => .ok (none, decoder)
      | some (payload, after) => .ok (some ⟨flags, payload⟩, { decoder with pending := after })

/-- Checks, after the last octets, that nothing incomplete is left. -/
def finish (decoder : Decoder) : Except Error Unit :=
  match header? decoder.pending with
  | some (_, length, rest) => .error (.incompletePayload length rest.length)
  | none =>
    if decoder.pending.isEmpty then .ok ()
    else .error (.incompleteHeader decoder.pending.length)

end Decoder

end Envelope

end RpcEcho
