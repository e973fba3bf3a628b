import RpcEcho.Proto.Varint

/-!
# Records of the binary form

The binary form of a message is a sequence of records: a key, made of a field number and a wire
type, and content in the shape of the wire type.

* `Record.Key`, `Record.Content`: the two parts.
* `Record.skipGroup?`: passes over a group, whatever it holds.
* `Record.readAll?`: the records of the fields that are asked for; all others are passed over.
-/

namespace RpcEcho.Proto

/-- The shapes of content. -/
inductive WireType where
  | varint
  | fixed64
  | delimited
  | groupStart
  | groupEnd
  | fixed32
  deriving DecidableEq, Repr

/-- The wire type of a number. -/
def WireType.ofNumber? : Nat → Option WireType
  | 0 => some varint
  | 1 => some fixed64
  | 2 => some delimited
  | 3 => some groupStart
  | 4 => some groupEnd
  | 5 => some fixed32
  | _ => none

namespace Record

/-- A field number and a wire type. -/
structure Key where
  number : Nat
  wireType : WireType
  deriving DecidableEq, Repr

/-- The content of a record that is no group. -/
inductive Content where
  | varint (value : Nat)
  | fixed64 (octets : Bytes)
  | delimited (octets : Bytes)
  | fixed32 (octets : Bytes)
  deriving DecidableEq, Repr

/-- The key at the front: its value has at most thirty-two bits and its field number is not zero. -/
def key? (octets : Bytes) : Option (Key × Bytes) :=
  match Varint.read octets with
  | none => none
  | some (value, rest) =>
    if 4294967295 < value || value / 8 = 0 then none
    else (WireType.ofNumber? (value % 8)).map fun wireType => (⟨value / 8, wireType⟩, rest)

/-- Content of a length given at the front. -/
def delimited? (octets : Bytes) : Option (Bytes × Bytes) :=
  match Varint.read octets with
  | none => none
  | some (length, rest) => Bytes.splitAt? length rest

/-- The content at the front, in the shape of a wire type that is no group. -/
def content? (wireType : WireType) (octets : Bytes) : Option (Content × Bytes) :=
  match wireType with
  | .varint => (Varint.read octets).map fun found => (.varint found.1, found.2)
  | .fixed64 => (Bytes.splitAt? 8 octets).map fun found => (.fixed64 found.1, found.2)
  | .delimited => (delimited? octets).map fun found => (.delimited found.1, found.2)
  | .fixed32 => (Bytes.splitAt? 4 octets).map fun found => (.fixed32 found.1, found.2)
  | .groupStart | .groupEnd => none

theorem key?_length {octets after : Bytes} {key : Key} (found : key? octets = some (key, after)) :
    after.length < octets.length := by
  unfold key? at found
  split at found
  · cases found
  · rename_i value rest read
    have := Varint.read_length read
    split at found
    · cases found
    · simp only [Option.map_eq_some_iff, Prod.mk.injEq] at found
      obtain ⟨_, _, _, rfl⟩ := found
      exact this

theorem delimited?_length {octets content after : Bytes}
    (found : delimited? octets = some (content, after)) : after.length ≤ octets.length := by
  unfold delimited? at found
  split at found
  · cases found
  · rename_i length rest read
    have shorter := Varint.read_length read
    obtain ⟨whole, _⟩ := Bytes.splitAt?_eq_some found
    have := congrArg List.length whole
    simp only [List.length_append] at this
    omega

theorem content?_length {wireType : WireType} {octets after : Bytes} {content : Content}
    (found : content? wireType octets = some (content, after)) :
    after.length ≤ octets.length := by
  cases wireType <;> simp only [content?, Option.map_eq_some_iff, Prod.mk.injEq] at found
  case varint =>
    obtain ⟨_, read, _, rfl⟩ := found
    have := Varint.read_length read
    omega
  case delimited =>
    obtain ⟨_, read, _, rfl⟩ := found
    exact delimited?_length read
  case groupStart => cases found
  case groupEnd => cases found
  all_goals
    obtain ⟨_, read, _, rfl⟩ := found
    obtain ⟨whole, _⟩ := Bytes.splitAt?_eq_some read
    have := congrArg List.length whole
    simp only [List.length_append] at this
    omega

/-- Passes over the rest of a group, given the numbers of the groups that are open, innermost first,
and how much deeper content may lie. Returns the octets behind the outermost group. -/
def skipGroup? (depth : Nat) (opened : List Nat) (octets : Bytes) : Option Bytes :=
  match _keyRead : key? octets with
  | none => none
  | some (key, rest) =>
    match key.wireType with
    | .groupEnd =>
      match opened with
      | [] => none
      | [innermost] => if innermost = key.number then some rest else none
      | innermost :: outer =>
        if innermost = key.number then skipGroup? (depth + 1) outer rest else none
    | .groupStart =>
      match depth with
      | 0 => none
      | deeper + 1 => skipGroup? deeper (key.number :: opened) rest
    | wireType =>
      match depth with
      | 0 => none
      | _ + 1 =>
        match _contentRead : content? wireType rest with
        | none => none
        | some (_, after) => skipGroup? depth opened after
termination_by octets.length
decreasing_by
  · exact key?_length _keyRead
  · exact key?_length _keyRead
  · have := key?_length _keyRead
    have := content?_length _contentRead
    omega

/-- Passes over the content of one record, given how deep content may lie. -/
def skip? (depth : Nat) (key : Key) (octets : Bytes) : Option Bytes :=
  match depth with
  | 0 => none
  | deeper + 1 =>
    match key.wireType with
    | .groupStart => skipGroup? deeper [key.number] octets
    | wireType => (content? wireType octets).map Prod.snd

theorem skipGroup?_length {depth : Nat} {opened : List Nat} {octets after : Bytes}
    (found : skipGroup? depth opened octets = some after) : after.length < octets.length := by
  fun_induction skipGroup? depth opened octets <;> try contradiction
  case case3 keyRead _ =>
    cases found
    exact key?_length keyRead
  case case5 keyRead _ _ _ inner => exact Nat.lt_trans (inner found) (key?_length keyRead)
  case case8 keyRead _ _ inner => exact Nat.lt_trans (inner found) (key?_length keyRead)
  case case11 keyRead _ _ _ _ _ contentRead inner =>
    have := key?_length keyRead
    have := content?_length contentRead
    have := inner found
    omega

theorem skip?_length {depth : Nat} {key : Key} {octets after : Bytes}
    (found : skip? depth key octets = some after) : after.length ≤ octets.length := by
  unfold skip? at found
  split at found
  · cases found
  · split at found
    · exact Nat.le_of_lt (skipGroup?_length found)
    · simp only [Option.map_eq_some_iff] at found
      obtain ⟨⟨content, rest⟩, read, rfl⟩ := found
      exact content?_length read

/-- How the records of a field number are read. -/
inductive Reading where
  /-- Passed over. -/
  | unknown
  /-- Kept, in the shape that the key announces. -/
  | announced
  /-- Kept, as content of a given length whatever shape the key announces. -/
  | entry
  deriving DecidableEq, Repr

/-- The records of the wanted fields, onto those read so far, last first. `depth` says how deep the
content that is passed over may lie. -/
def readOnto (depth : Nat) (reading : Nat → Reading) (read : List (Nat × Content))
    (octets : Bytes) : Option (List (Nat × Content)) :=
  if octets.isEmpty then some read.reverse
  else match _keyRead : key? octets with
  | none => none
  | some (key, rest) =>
    match reading key.number with
    | .unknown =>
      match _skipped : skip? depth key rest with
      | none => none
      | some after => readOnto depth reading read after
    | .announced =>
      match _contentRead : content? key.wireType rest with
      | none => none
      | some (content, after) => readOnto depth reading ((key.number, content) :: read) after
    | .entry =>
      match _entryRead : delimited? rest with
      | none => none
      | some (content, after) =>
        readOnto depth reading ((key.number, .delimited content) :: read) after
termination_by octets.length
decreasing_by
  · have := key?_length _keyRead
    have := skip?_length _skipped
    omega
  · have := key?_length _keyRead
    have := content?_length _contentRead
    omega
  · have := key?_length _keyRead
    have := delimited?_length _entryRead
    omega

/-- The records of the wanted fields, in order, if all records are well formed. -/
def readAll? (depth : Nat) (reading : Nat → Reading) (octets : Bytes) :
    Option (List (Nat × Content)) :=
  readOnto depth reading [] octets

end Record

end RpcEcho.Proto
