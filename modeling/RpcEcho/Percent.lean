import RpcEcho.Text.Utf8

/-!
# Percent coding of messages

A status message travels in a header as printable ASCII: every other octet of its UTF-8 form, and
the percent sign, is written as `%` and two capital hexadecimal digits. Reading undoes the escapes,
leaves a percent sign that opens no escape as it stands, and reads the octets leniently.
-/

namespace RpcEcho.Percent

/-- Whether an octet stands for itself. -/
def isPlain (octet : UInt8) : Bool := 0x20 ≤ octet && octet ≤ 0x7E && octet != 0x25

/-- The written form of one octet. -/
def encodeOctet (octet : UInt8) : Bytes :=
  if isPlain octet then [octet]
  else [0x25, Bytes.upperHexDigit (octet.toNat / 16), Bytes.upperHexDigit (octet.toNat % 16)]

/-- The written form of octets. -/
def encodeOctets (octets : Bytes) : Bytes := octets.flatMap encodeOctet

/-- Undoes the escapes, onto the octets read so far, last first. -/
def decodeOnto (read : Bytes) : Bytes → Bytes
  | [] => read.reverse
  | [first] => decodeOnto (first :: read) []
  | [first, second] => decodeOnto (first :: read) [second]
  | first :: high :: low :: rest =>
    if first = 0x25 then
      match Bytes.hexValue? high, Bytes.hexValue? low with
      | some highValue, some lowValue =>
        decodeOnto (UInt8.ofNat (highValue * 16 + lowValue) :: read) rest
      | _, _ => decodeOnto (first :: read) (high :: low :: rest)
    else decodeOnto (first :: read) (high :: low :: rest)
termination_by octets => octets.length

/-- The octets that a written form stands for. -/
def decodeOctets (written : Bytes) : Bytes := decodeOnto [] written

/-- The written form of a text, in printable ASCII. -/
def encode (text : String) : Bytes := encodeOctets (Utf8.encode text)

/-- The text that written octets stand for. -/
def decode (written : Bytes) : String := Utf8.decodeLenient (decodeOctets written)

end RpcEcho.Percent
