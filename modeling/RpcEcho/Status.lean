/-!
# Outcomes of calls

A call ends with a code and, when it fails, perhaps with a message. The module holds the seventeen
codes, their numbers, names and HTTP statuses, and the status that a failed call reports.
-/

namespace RpcEcho

/-- The codes with which a call can end. -/
inductive Code where
  | ok
  | canceled
  | unknown
  | invalidArgument
  | deadlineExceeded
  | notFound
  | alreadyExists
  | permissionDenied
  | resourceExhausted
  | failedPrecondition
  | aborted
  | outOfRange
  | unimplemented
  | internal
  | unavailable
  | dataLoss
  | unauthenticated
  deriving DecidableEq, Repr, Inhabited

namespace Code

/-- All codes, in the order of their numbers. -/
def all : List Code :=
  [ok, canceled, unknown, invalidArgument, deadlineExceeded, notFound, alreadyExists,
    permissionDenied, resourceExhausted, failedPrecondition, aborted, outOfRange, unimplemented,
    internal, unavailable, dataLoss, unauthenticated]

/-- The number that stands for a code on the wire. -/
def number : Code → Nat
  | ok => 0
  | canceled => 1
  | unknown => 2
  | invalidArgument => 3
  | deadlineExceeded => 4
  | notFound => 5
  | alreadyExists => 6
  | permissionDenied => 7
  | resourceExhausted => 8
  | failedPrecondition => 9
  | aborted => 10
  | outOfRange => 11
  | unimplemented => 12
  | internal => 13
  | unavailable => 14
  | dataLoss => 15
  | unauthenticated => 16

/-- The code of a number; a number that stands for no code means `unknown`. -/
def ofNumber (value : Int) : Code :=
  (all.find? fun code => (code.number : Int) = value).getD unknown

/-- The name of a code on the wire. -/
def name : Code → String
  | ok => "ok"
  | canceled => "canceled"
  | unknown => "unknown"
  | invalidArgument => "invalid_argument"
  | deadlineExceeded => "deadline_exceeded"
  | notFound => "not_found"
  | alreadyExists => "already_exists"
  | permissionDenied => "permission_denied"
  | resourceExhausted => "resource_exhausted"
  | failedPrecondition => "failed_precondition"
  | aborted => "aborted"
  | outOfRange => "out_of_range"
  | unimplemented => "unimplemented"
  | internal => "internal"
  | unavailable => "unavailable"
  | dataLoss => "data_loss"
  | unauthenticated => "unauthenticated"

/-- The HTTP status of a unary call without envelopes that ends with the code. -/
def httpStatus : Code → Nat
  | ok => 200
  | canceled => 499
  | unknown => 500
  | invalidArgument => 400
  | deadlineExceeded => 504
  | notFound => 404
  | alreadyExists => 409
  | permissionDenied => 403
  | resourceExhausted => 429
  | failedPrecondition => 400
  | aborted => 409
  | outOfRange => 400
  | unimplemented => 501
  | internal => 500
  | unavailable => 503
  | dataLoss => 500
  | unauthenticated => 401

end Code

/-- How a failed call ends. -/
structure Status where
  /-- Why the call failed. -/
  code : Code
  /-- What the caller is told beside the code, if anything. -/
  message : Option String
  deriving DecidableEq, Repr, Inhabited

namespace Status

/-- A status with a message. -/
def of (code : Code) (message : String) : Status := ⟨code, some message⟩

/-- A status as one line: the name of the code, then the message if there is one. -/
def line (status : Status) : String :=
  match status.message with
  | some message => status.code.name ++ ": " ++ message
  | none => status.code.name

end Status

end RpcEcho
