import RpcEcho.Timeout

/-!
# Timeouts in machine words

The same reading of timeouts from octets, with numbers of 64 bits and spans of time as seconds and
a part of a second. Digits whose number is too large for a word are refused. A product that is too
large is a fault of its own, so that a reading without one shows that no product was cut off.

* `Timeout.Span`: a span of time.
* `Timeout.Words.splitLast?`: the octets before the last character, if that is a single octet.
* `Timeout.Words.read?`: the timeout of a text, by the protocol.
-/

namespace RpcEcho.Timeout

/-- A span of time: whole seconds, and nanoseconds that make less than a second. -/
structure Span where
  seconds : UInt64
  nanos : UInt32
  small : nanos.toNat < 1000000000
  deriving DecidableEq

namespace Span

/-- The whole span in nanoseconds. -/
def toNanos (span : Span) : Nat := span.seconds.toNat * 1000000000 + span.nanos.toNat

theorem toNat_partOfMillis (millis : UInt64) :
    ((millis % 1000).toUInt32 * 1000000).toNat = millis.toNat % 1000 * 1000000 := by
  rw [UInt32.toNat_mul, UInt64.toNat_toUInt32, UInt64.toNat_mod]
  simp only [UInt64.reduceToNat, UInt32.reduceToNat]
  omega

theorem toNat_partOfMicros (micros : UInt64) :
    ((micros % 1000000).toUInt32 * 1000).toNat = micros.toNat % 1000000 * 1000 := by
  rw [UInt32.toNat_mul, UInt64.toNat_toUInt32, UInt64.toNat_mod]
  simp only [UInt64.reduceToNat, UInt32.reduceToNat]
  omega

theorem toNat_partOfNanos (nanos : UInt64) :
    (nanos % 1000000000).toUInt32.toNat = nanos.toNat % 1000000000 := by
  rw [UInt64.toNat_toUInt32, UInt64.toNat_mod]
  simp only [UInt64.reduceToNat]
  omega

def ofSeconds (seconds : UInt64) : Span := ⟨seconds, 0, by decide⟩

def ofMillis (millis : UInt64) : Span :=
  ⟨millis / 1000, (millis % 1000).toUInt32 * 1000000, by rw [toNat_partOfMillis]; omega⟩

def ofMicros (micros : UInt64) : Span :=
  ⟨micros / 1000000, (micros % 1000000).toUInt32 * 1000, by rw [toNat_partOfMicros]; omega⟩

def ofNanos (nanos : UInt64) : Span :=
  ⟨nanos / 1000000000, (nanos % 1000000000).toUInt32, by rw [toNat_partOfNanos]; omega⟩

end Span

namespace Words

/-- A product is too large for a word. -/
inductive Fault where
  | overflow
  deriving DecidableEq, Repr

/-- A product of two words. -/
def mul (one other : UInt64) : Except Fault UInt64 :=
  if one.toNat * other.toNat < UInt64.size then .ok (one * other) else .error .overflow

/-- A number with one more digit behind it, unless that is too large for a word. -/
def appendDigit? (value : UInt64) (octet : UInt8) : Option UInt64 :=
  let next := value.toNat * 10 + (octet.toNat - 48)
  if next < UInt64.size then some (UInt64.ofNat next) else none

/-- The number that between one and `most` digits spell. -/
def amount? (most : Nat) (octets : Bytes) : Option UInt64 :=
  if octets.isEmpty || most < octets.length || !octets.all Bytes.isDigit then none
  else octets.foldlM appendDigit? 0

/-- The octets of a text before its last octet, and that octet, unless it continues a character. -/
def splitLast? (octets : Bytes) : Option (Bytes × UInt8) :=
  match octets.reverse with
  | [] => none
  | last :: reversedRest =>
    if Utf8.isContinuation last then none else some (reversedRest.reverse, last)

/-- A number of milliseconds; zero means no timeout. -/
def ofMillis? (octets : Bytes) : Option Span :=
  (amount? 10 octets).bind fun millis => if millis = 0 then none else some (Span.ofMillis millis)

/-- So many of a unit. -/
def scaled? (amount : UInt64) (unit : UInt8) : Except Fault (Option Span) :=
  if unit = 72 then do
    let minutes ← mul amount 60
    let seconds ← mul minutes 60
    return some (Span.ofSeconds seconds)
  else if unit = 77 then do
    let seconds ← mul amount 60
    return some (Span.ofSeconds seconds)
  else if unit = 83 then return some (Span.ofSeconds amount)
  else if unit = 109 then return some (Span.ofMillis amount)
  else if unit = 117 then return some (Span.ofMicros amount)
  else if unit = 110 then return some (Span.ofNanos amount)
  else return none

/-- A number with a unit behind it. -/
def ofUnit? (octets : Bytes) : Except Fault (Option Span) :=
  match splitLast? octets with
  | none => return none
  | some (digits, unit) =>
    match amount? 8 digits with
    | none => return none
    | some amount => scaled? amount unit

/-- The timeout that a text spells in a protocol. -/
def read? (protocol : Protocol) (octets : Bytes) : Except Fault (Option Span) :=
  match protocol with
  | .connect => return ofMillis? octets
  | .grpc | .grpcWeb => ofUnit? octets

/-- The timeout of a request. -/
def ofHeaders? (wire : WireFormat) (headers : Headers) : Except Fault (Option Span) :=
  match headers.firstText? (headerName wire) with
  | none => return none
  | some text => read? wire.protocol (Utf8.encode (Text.trim text))

end Words

end RpcEcho.Timeout
