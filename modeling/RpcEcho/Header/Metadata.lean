import RpcEcho.Header.Map

/-!
# Metadata

The part of a header map that belongs to the application. Names that speak about one connection
never leave it, and names that belong to a protocol are never sent back as trailers.

* `HeaderName.isHopByHop`, `HeaderName.isProtocol`: the two classes of names.
* `Metadata.ofHeaders`: what of a request's headers a reply may show.
* `Metadata.trailers`: what of that goes back as trailers.
-/

namespace RpcEcho

namespace HeaderName

/-- The names that speak about one connection. -/
def hopByHop : List String :=
  ["connection", "keep-alive", "proxy-connection", "proxy-authenticate", "proxy-authorization",
    "te", "trailer", "transfer-encoding", "upgrade", "host"]

/-- The names, beside those of one connection, that HTTP and its content rules own. -/
def contentNames : List String :=
  ["content-type", "content-length", "content-encoding", "accept-encoding", "host", "user-agent",
    "trailer", "date"]

/-- The openings of names that the calling protocols own. -/
def protocolOpenings : List String := ["connect-", "grpc-", "trailer-"]

/-- The ASCII case fold of a text. -/
def fold (name : String) : String :=
  String.ofList (name.toList.map fun c =>
    if 'A' ≤ c ∧ c ≤ 'Z' then Char.ofNat (c.toNat + 32) else c)

/-- Whether a name, in any ASCII case, speaks about one connection. -/
def isHopByHop (name : String) : Bool := hopByHop.contains (fold name)

/-- Whether a name, in any ASCII case, belongs to HTTP or to a calling protocol. -/
def isProtocol (name : String) : Bool :=
  let folded := fold name
  contentNames.contains folded
    || protocolOpenings.any (fun opening => opening.toList.isPrefixOf folded.toList)
    || hopByHop.contains folded

end HeaderName

/-- Names with one text each. -/
abbrev Metadata := List (String × String)

namespace Metadata

/-- The metadata of a header map: each name that does not speak about one connection, with its first
value, if that value is text. -/
def ofHeaders (headers : Headers) : Metadata :=
  headers.entries.filterMap fun entry =>
    if HeaderName.isHopByHop entry.1 then none
    else (entry.2.head?.bind HeaderValue.text?).map fun text => (entry.1, text)

/-- Metadata as trailers: the entries whose name no protocol owns and whose name and value HTTP
admits. A later entry replaces an earlier one of the same name. -/
def trailers (metadata : Metadata) : Headers :=
  metadata.foldl
    (fun headers entry =>
      if HeaderName.isProtocol entry.1 then headers
      else match HeaderName.parse? (Utf8.encode entry.1) with
        | none => headers
        | some name =>
          let value := Utf8.encode entry.2
          if HeaderValue.isValid value then headers.insert name value else headers)
    Headers.empty

end Metadata

end RpcEcho
