import RpcEcho.Header.Map

/-!
# Request bodies

A body comes in parts. The time before a part runs only while somebody waits for the part.
-/

namespace RpcEcho

/-- A part of a request body. -/
inductive BodyPart where
  /-- Octets, and the milliseconds before they come. -/
  | data (octets : Bytes) (wait : Nat)
  | trailers (headers : Headers)
  deriving Repr

/-- What comes after the last part. -/
inductive BodyEnding where
  | complete
  /-- Nothing ever. -/
  | silent
  /-- The body breaks off. -/
  | broken (reason : String)
  deriving DecidableEq, Repr

/-- A request body. -/
structure RequestBody where
  parts : List BodyPart
  ending : BodyEnding
  deriving Repr

namespace RequestBody

/-- The octets that a part holds. -/
def octetsOf : BodyPart → Bytes
  | .data octets _ => octets
  | .trailers _ => []

/-- All octets of a body. -/
def octets (body : RequestBody) : Bytes := body.parts.flatMap octetsOf

end RequestBody

end RpcEcho
