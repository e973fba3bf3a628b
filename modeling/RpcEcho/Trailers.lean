import RpcEcho.Status
import RpcEcho.Percent
import RpcEcho.Envelope
import RpcEcho.Header.Map

/-!
# Trailers

How the end of a call is told in trailers: a status number and a percent-coded message next to the
application's own entries, either as a header map or as a block of lines in a frame.

* `Trailers.ofOutcome`: the trailers of a call that succeeded or failed.
* `Trailers.block`, `Trailers.frame`: one line for each entry, and the frame around them.
* `Trailers.ofBlock`: the entries of a block; lines that hold no entry are left out.
-/

namespace RpcEcho.Trailers

/-- The name under which the status number travels. -/
def statusName : String := "grpc-status"

/-- The name under which the message travels. -/
def messageName : String := "grpc-message"

/-- The trailers of a call: the given entries, the number of its code and, if it failed with a
message, the coded message. -/
def ofOutcome (failure : Option Status) (extra : Headers) : Headers :=
  match failure with
  | none => extra.insert statusName (Bytes.ofAscii (Code.ok.number.repr))
  | some status =>
    let headers := extra.insert statusName (Bytes.ofAscii status.code.number.repr)
    match status.message with
    | none => headers
    | some message => headers.insert messageName (Percent.encode message)

/-- The colon and blank between the name and the value of a line. -/
def separator : Bytes := [58, 32]

/-- The carriage return and line feed that end a line. -/
def lineEnd : Bytes := [13, 10]

/-- One line of a block. -/
def line (entry : String × Bytes) : Bytes :=
  Utf8.encode entry.1 ++ separator ++ entry.2 ++ lineEnd

/-- A header map as a block of lines. -/
def block (headers : Headers) : Bytes := headers.toList.flatMap line

/-- A header map as a frame that ends a stream. -/
def frame (headers : Headers) : Bytes := Envelope.wrap (block headers) Flags.trailers

/-- Cuts octets at their line feeds, onto the lines and the part of a line read so far, last
first. The part behind the last line feed is a line too. -/
def linesOnto (lines : List Bytes) (current : Bytes) : Bytes → List Bytes
  | [] => (current.reverse :: lines).reverse
  | octet :: rest =>
    if octet = 10 then linesOnto (current.reverse :: lines) [] rest
    else linesOnto lines (octet :: current) rest

/-- The lines of a block. -/
def lines (octets : Bytes) : List Bytes := linesOnto [] [] octets

/-- The entry of a line: what stands before its first colon and what stands behind it, without
blanks around them. A line has none if it has no colon or if HTTP admits no such name or value. -/
def entryOf? (line : Bytes) : Option (String × Bytes) :=
  match line.span (fun octet => octet != 58) with
  | (_, []) => none
  | (front, _ :: behind) =>
    match HeaderName.parse? (Bytes.trim front) with
    | none => none
    | some name =>
      let value := Bytes.trim behind
      if HeaderValue.isValid value then some (name, value) else none

/-- The header map of a block. -/
def ofBlock (octets : Bytes) : Headers := Headers.ofList ((lines octets).filterMap entryOf?)

end RpcEcho.Trailers
