import RpcEcho.Text.Decimal
import RpcEcho.WireFormat

/-!
# Timeouts

A caller may say how long a call may take, in a header of its protocol: a number of milliseconds,
or a number with a unit. Spans of time are whole nanoseconds.

* `Timeout.ofMillis?`: at most ten digits, not zero.
* `Timeout.ofUnit?`: at most eight digits and a unit.
* `Timeout.ofHeaders?`: the timeout of a request.
-/

namespace RpcEcho.Timeout

/-- The number that between one and `most` ASCII digits spell. -/
def amount? (most : Nat) (digits : List Char) : Option Nat :=
  if most < digits.length then none else Decimal.read? digits

/-- Nanoseconds in a millisecond. -/
def milli : Nat := 1000000

/-- The nanoseconds that a unit stands for. -/
def unit? : Char → Option Nat
  | 'H' => some 3600000000000
  | 'M' => some 60000000000
  | 'S' => some 1000000000
  | 'm' => some milli
  | 'u' => some 1000
  | 'n' => some 1
  | _ => none

/-- A number of milliseconds; zero means no timeout. -/
def ofMillis? (text : String) : Option Nat :=
  match amount? 10 text.toList with
  | none => none
  | some amount => if amount = 0 then none else some (amount * milli)

/-- A number with a unit behind it. -/
def ofUnit? (text : String) : Option Nat :=
  match text.toList.reverse with
  | [] => none
  | last :: reversedDigits =>
    match amount? 8 reversedDigits.reverse, unit? last with
    | some amount, some unit => some (amount * unit)
    | _, _ => none

/-- The header that holds the timeout of requests in a format. -/
def headerName (wire : WireFormat) : String :=
  match wire.protocol with
  | .connect => "connect-timeout-ms"
  | .grpc | .grpcWeb => "grpc-timeout"

/-- The timeout of a request, in nanoseconds. -/
def ofHeaders? (wire : WireFormat) (headers : Headers) : Option Nat :=
  (headers.firstText? (headerName wire)).bind fun text =>
    match wire.protocol with
    | .connect => ofMillis? (Text.trim text)
    | .grpc | .grpcWeb => ofUnit? (Text.trim text)

end RpcEcho.Timeout
