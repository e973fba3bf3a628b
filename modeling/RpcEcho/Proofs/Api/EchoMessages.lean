import RpcEcho.Proofs.Api.Lossless

/-!
# Echo messages there and back

What the echo service takes is read back in either codec as it was, and what it gives with its
message and with metadata that holds the same entries in some order. In the binary form that order
makes no difference to the size.
-/

namespace RpcEcho.Api

open Proto Binary

/-! ## Requests -/

theorem isMessage_request (request : EchoRequest) :
    catalog.IsMessage .echoRequest (Payload.toMessage request) := by
  refine .message ⟨?_, ?_, ?_⟩ ?_
  · intro entry member
    rw [Message.eq_of_mem_ofText member]
    exact Option.some_ne_none _
  · change ((Message.ofText 1 request.message).map Prod.fst).Pairwise _
    rw [Message.ofText]
    split <;> simp
  · intro slot member
    rw [List.mem_singleton.mp member]
    exact admits_text rfl request.message rfl
  · intro entry member field known
    rw [Message.eq_of_mem_ofText member] at known ⊢
    cases known
    exact .scalar trivial

/-- A request is read back from its payload. -/
theorem decode_encode_request {codec : Codec} {request : EchoRequest} {payload : Bytes}
    (encoded : Payload.encode codec request = .ok payload) (fits : payload.length < Varint.bound) :
    Payload.decode codec payload = .ok request := by
  obtain ⟨read, decoded, agrees⟩ := decode_encode_payload (isMessage_request request) encoded fits
  have text : read.text 1 = request.message :=
    Message.text_eq_of_values (agrees.ordered (textField 1 "message") (by decide) (by decide))
  rw [decoded]
  exact congrArg (fun text => Except.ok (EchoRequest.mk text)) text

/-! ## Requests for delayed echoes -/

section DelayedRequest

variable {asked : EchoWithDelayRequest}

theorem mem_delayedRequest {entry : Nat × Value} (member : entry ∈ Payload.toMessage asked) :
    entry = (1, .text asked.message) ∨ entry = (2, .int asked.delay) :=
  (List.mem_append.mp member).imp Message.eq_of_mem_ofText Message.eq_of_mem_ofInt

theorem values_delayedRequest (asked : EchoWithDelayRequest) :
    (Payload.toMessage asked).values 1 = (Message.ofText 1 asked.message).values 1 ∧
      (Payload.toMessage asked).values 2 = (Message.ofInt 2 asked.delay).values 2 := by
  simp [Payload.toMessage]

theorem isMessage_delayedRequest (delayFits : FitsWord asked.delay) :
    catalog.IsMessage .echoWithDelayRequest (Payload.toMessage asked) := by
  obtain ⟨text, delay⟩ := values_delayedRequest asked
  refine .message ⟨?_, ?_, ?_⟩ ?_
  · intro entry member
    rcases mem_delayedRequest member with rfl | rfl <;> exact Option.some_ne_none _
  · simp only [Payload.toMessage, Message.ofText, Message.ofInt]
    split <;> split <;> simp
  · intro slot member
    simp only [catalog, List.mem_cons, List.not_mem_nil, or_false] at member
    rcases member with rfl | rfl
    · exact admits_text rfl _ text
    · exact admits_int rfl _ delay
  · intro entry member field known
    rcases mem_delayedRequest member with rfl | rfl <;> cases known
    · exact .scalar trivial
    · exact .scalar delayFits

/-- A request for a delayed echo is read back from its payload. -/
theorem decode_encode_delayedRequest {codec : Codec} (delayFits : FitsWord asked.delay)
    {payload : Bytes} (encoded : Payload.encode codec asked = .ok payload)
    (fits : payload.length < Varint.bound) : Payload.decode codec payload = .ok asked := by
  obtain ⟨read, decoded, agrees⟩ :=
    decode_encode_payload (isMessage_delayedRequest delayFits) encoded fits
  obtain ⟨text, delay⟩ := values_delayedRequest asked
  have isText : read.text 1 = asked.message := Message.text_eq_of_values
    ((agrees.ordered (textField 1 "message") (by decide) (by decide)).trans text)
  have isDelay : read.int 2 = asked.delay := Message.int_eq_of_values
    ((agrees.ordered (intField 2 "delay_ms") (by decide) (by decide)).trans delay)
  rw [decoded]
  change Except.ok (⟨read.text 1, read.int 2⟩ : EchoWithDelayRequest) = _
  rw [isText, isDelay]

end DelayedRequest

/-! ## Requests for streams -/

section StreamRequest

variable {asked : ServerStreamRequest}

theorem mem_streamRequest {entry : Nat × Value} (member : entry ∈ Payload.toMessage asked) :
    entry = (1, .text asked.message) ∨ entry = (2, .int asked.count) ∨
      entry = (3, .int asked.interval) := by
  simp only [Payload.toMessage, List.mem_append] at member
  rcases member with (isText | isCount) | isInterval
  · exact .inl (Message.eq_of_mem_ofText isText)
  · exact .inr (.inl (Message.eq_of_mem_ofInt isCount))
  · exact .inr (.inr (Message.eq_of_mem_ofInt isInterval))

theorem values_streamRequest (asked : ServerStreamRequest) :
    (Payload.toMessage asked).values 1 = (Message.ofText 1 asked.message).values 1 ∧
      (Payload.toMessage asked).values 2 = (Message.ofInt 2 asked.count).values 2 ∧
      (Payload.toMessage asked).values 3 = (Message.ofInt 3 asked.interval).values 3 := by
  simp [Payload.toMessage]

theorem isMessage_streamRequest (countFits : FitsWord asked.count)
    (intervalFits : FitsWord asked.interval) :
    catalog.IsMessage .serverStreamRequest (Payload.toMessage asked) := by
  obtain ⟨text, count, interval⟩ := values_streamRequest asked
  refine .message ⟨?_, ?_, ?_⟩ ?_
  · intro entry member
    rcases mem_streamRequest member with rfl | rfl | rfl <;> exact Option.some_ne_none _
  · simp only [Payload.toMessage, Message.ofText, Message.ofInt]
    split <;> split <;> split <;> simp
  · intro slot member
    simp only [catalog, List.mem_cons, List.not_mem_nil, or_false] at member
    rcases member with rfl | rfl | rfl
    · exact admits_text rfl _ text
    · exact admits_int rfl _ count
    · exact admits_int rfl _ interval
  · intro entry member field known
    rcases mem_streamRequest member with rfl | rfl | rfl <;> cases known
    · exact .scalar trivial
    · exact .scalar countFits
    · exact .scalar intervalFits

/-- A request for a stream is read back from its payload. -/
theorem decode_encode_streamRequest {codec : Codec} (countFits : FitsWord asked.count)
    (intervalFits : FitsWord asked.interval) {payload : Bytes}
    (encoded : Payload.encode codec asked = .ok payload) (fits : payload.length < Varint.bound) :
    Payload.decode codec payload = .ok asked := by
  obtain ⟨read, decoded, agrees⟩ :=
    decode_encode_payload (isMessage_streamRequest countFits intervalFits) encoded fits
  obtain ⟨text, count, interval⟩ := values_streamRequest asked
  have isText : read.text 1 = asked.message := Message.text_eq_of_values
    ((agrees.ordered (textField 1 "message") (by decide) (by decide)).trans text)
  have isCount : read.int 2 = asked.count := Message.int_eq_of_values
    ((agrees.ordered (intField 2 "count") (by decide) (by decide)).trans count)
  have isInterval : read.int 3 = asked.interval := Message.int_eq_of_values
    ((agrees.ordered (intField 3 "interval_ms") (by decide) (by decide)).trans interval)
  rw [decoded]
  change Except.ok (⟨read.text 1, read.int 2, read.int 3⟩ : ServerStreamRequest) = _
  rw [isText, isCount, isInterval]

end StreamRequest

/-! ## Responses -/

theorem map_pairOf_map_entryOf (pairs : List (String × String)) :
    (pairs.map Message.entryOf).map Message.pairOf = pairs := by
  have same : Message.pairOf ∘ Message.entryOf = id := funext Message.pairOf_entryOf
  rw [List.map_map, same, List.map_id]

/-- Messages that are entries of pairs, in another order, are the entries of the same pairs in
another order. -/
theorem exists_pairs_of_perm {entries : List Message} {pairs : List (String × String)}
    (permuted : entries.Perm (pairs.map Message.entryOf)) :
    ∃ others : List (String × String),
      others.Perm pairs ∧ entries = others.map Message.entryOf := by
  refine ⟨entries.map Message.pairOf, ?_, ?_⟩
  · have unpaired := permuted.map Message.pairOf
    rw [map_pairOf_map_entryOf] at unpaired
    exact unpaired
  · rw [List.map_map]
    refine (List.map_id entries).symm.trans (List.map_congr_left fun entry member => ?_)
    obtain ⟨pair, _, rfl⟩ := List.mem_map.mp (permuted.mem_iff.mp member)
    rw [Function.comp_apply, Message.pairOf_entryOf]
    rfl

theorem nodup_keys_entries {pairs : List (String × String)}
    (distinct : (pairs.map Prod.fst).Nodup) :
    ((pairs.map Message.entryOf).map fun entry => entry.text 1).Nodup := by
  have same : (fun entry : Message => entry.text 1) ∘ Message.entryOf = Prod.fst := by
    funext pair
    exact congrArg Prod.fst (Message.pairOf_entryOf pair)
  rw [List.map_map, same]
  exact distinct

theorem mapEntries_entries {pairs : List (String × String)}
    (distinct : (pairs.map Prod.fst).Nodup) :
    ∃ others : List (String × String), others.Perm pairs ∧
      mapEntries catalog .metadataEntry (pairs.map Message.entryOf) =
        others.map Message.entryOf :=
  exists_pairs_of_perm (mapEntries_perm catalog .metadataEntry (nodup_keys_entries distinct))

theorem toMessage_response {response : EchoResponse}
    (distinct : (response.metadata.map Prod.fst).Nodup) :
    ∃ pairs : List (String × String), pairs.Perm response.metadata ∧
      Payload.toMessage response =
        Message.ofText 1 response.message ++ messageEntries 2 (pairs.map Message.entryOf) := by
  obtain ⟨pairs, permuted, entries⟩ := mapEntries_entries distinct
  refine ⟨pairs, permuted, ?_⟩
  rw [← entries]
  rfl

theorem mem_entry {pair : String × String} {entry : Nat × Value}
    (member : entry ∈ Message.entryOf pair) :
    entry = (1, .text pair.1) ∨ entry = (2, .text pair.2) :=
  (List.mem_append.mp member).imp Message.eq_of_mem_ofText Message.eq_of_mem_ofText

theorem isMessage_entry (pair : String × String) :
    catalog.IsMessage .metadataEntry (Message.entryOf pair) := by
  refine .message ⟨?_, ?_, ?_⟩ ?_
  · intro entry member
    rcases mem_entry member with rfl | rfl <;> exact Option.some_ne_none _
  · simp only [Message.entryOf, Message.ofText]
    split <;> split <;> simp
  · intro slot member
    simp only [catalog, List.mem_cons, List.not_mem_nil, or_false] at member
    rcases member with rfl | rfl
    · exact admits_text rfl pair.1 (by simp [Message.entryOf, textField])
    · exact admits_text rfl pair.2 (by simp [Message.entryOf, textField])
  · intro entry member field known
    rcases mem_entry member with rfl | rfl <;> cases known <;> exact .scalar trivial

theorem not_hasUnnamed_entry (pair : String × String) :
    ¬ HasUnnamed catalog (.message .metadataEntry) (.message (Message.entryOf pair)) := by
  intro unnamed
  cases unnamed with
  | inside member found inner =>
      rcases mem_entry member with rfl | rfl <;> cases found <;> cases inner

section Response

variable {message : String} {pairs : List (String × String)}

theorem mem_response {entry : Nat × Value}
    (member : entry ∈ Message.ofText 1 message ++ messageEntries 2 (pairs.map Message.entryOf)) :
    entry = (1, .text message) ∨ ∃ pair, entry = (2, .message (Message.entryOf pair)) := by
  rcases List.mem_append.mp member with isText | isEntry
  · exact .inl (Message.eq_of_mem_ofText isText)
  · obtain ⟨_, inEntries, rfl⟩ := List.mem_map.mp isEntry
    obtain ⟨pair, _, rfl⟩ := List.mem_map.mp inEntries
    exact .inr ⟨pair, rfl⟩

theorem isMessage_response (distinct : (pairs.map Prod.fst).Nodup) :
    catalog.IsMessage .echoResponse
      (Message.ofText 1 message ++ messageEntries 2 (pairs.map Message.entryOf)) := by
  refine .message ⟨?_, ?_, ?_⟩ ?_
  · intro entry member
    rcases mem_response member with rfl | ⟨pair, rfl⟩ <;> exact Option.some_ne_none _
  · have texts : ∀ entry ∈ Message.ofText 1 message, entry.1 = 1 := by
      intro entry member
      rw [Message.eq_of_mem_ofText member]
    have entries : ∀ entry ∈ messageEntries 2 (pairs.map Message.entryOf), entry.1 = 2 := by
      intro entry member
      obtain ⟨_, _, rfl⟩ := List.mem_map.mp member
      rfl
    rw [List.pairwise_map, List.pairwise_append]
    refine ⟨List.pairwise_of_forall_mem_list fun first isFirst second isSecond => ?_,
      List.pairwise_of_forall_mem_list fun first isFirst second isSecond => ?_,
      fun first isFirst second isSecond => ?_⟩
    · exact Nat.le_of_eq ((texts first isFirst).trans (texts second isSecond).symm)
    · exact Nat.le_of_eq ((entries first isFirst).trans (entries second isSecond).symm)
    · rw [texts first isFirst, entries second isSecond]
      decide
  · intro slot member
    simp only [catalog, List.mem_cons, List.not_mem_nil, or_false] at member
    rcases member with rfl | rfl
    · exact admits_text rfl message (by simp [textField])
    · have held : (Message.ofText 1 message ++
          messageEntries 2 (pairs.map Message.entryOf)).values 2 =
            (pairs.map Message.entryOf).map .message := by simp
      change ((Message.values _ 2).map Value.key).Nodup
      rw [held, List.map_map]
      exact nodup_keys_entries distinct
  · intro entry member field known
    rcases mem_response member with rfl | ⟨pair, rfl⟩ <;> cases known
    · exact .scalar trivial
    · exact isMessage_entry pair

theorem messages_response :
    Message.messages (Message.ofText 1 message ++ messageEntries 2 (pairs.map Message.entryOf)) 2 =
      pairs.map Message.entryOf := by
  rw [Message.messages, Message.values_append, Message.values_ofText, values_messageEntries,
    if_neg (by simp), if_pos rfl, List.nil_append, List.filterMap_map]
  exact List.filterMap_some

theorem not_hasUnnamed_response :
    ¬ HasUnnamed catalog (.message .echoResponse)
      (.message (Message.ofText 1 message ++ messageEntries 2 (pairs.map Message.entryOf))) := by
  intro unnamed
  cases unnamed with
  | inside member found inner =>
      rcases mem_response member with rfl | ⟨pair, rfl⟩ <;> cases found
      · cases inner
      · exact not_hasUnnamed_entry pair inner

end Response

theorem exists_encode_response (codec : Codec) {response : EchoResponse}
    (distinct : (response.metadata.map Prod.fst).Nodup) :
    ∃ payload, Payload.encode codec response = .ok payload := by
  obtain ⟨pairs, permuted, shape⟩ := toMessage_response distinct
  have distinctPairs := ((permuted.map Prod.fst).nodup_iff).mpr distinct
  refine exists_encode_payload codec ?_ ?_
  · rw [shape]
    exact isMessage_response distinctPairs
  · rw [shape]
    exact not_hasUnnamed_response

/-- A response is read back from its payload, with its metadata in some order. -/
theorem decode_encode_response {codec : Codec} {response : EchoResponse} {payload : Bytes}
    (distinct : (response.metadata.map Prod.fst).Nodup)
    (encoded : Payload.encode codec response = .ok payload) (fits : payload.length < Varint.bound) :
    ∃ metadata : Metadata, metadata.Perm response.metadata ∧
      Payload.decode codec payload = .ok (⟨response.message, metadata⟩ : EchoResponse) := by
  obtain ⟨pairs, permuted, shape⟩ := toMessage_response distinct
  have distinctPairs := ((permuted.map Prod.fst).nodup_iff).mpr distinct
  have valid : catalog.IsMessage .echoResponse (Payload.toMessage response) :=
    shape ▸ isMessage_response distinctPairs
  obtain ⟨read, decoded, agrees⟩ := decode_encode_payload valid encoded fits
  rw [shape] at agrees
  have text : read.text 1 = response.message := by
    have held : read.values 1 = _ :=
      agrees.ordered (textField 1 "message") (by decide) (by decide)
    exact Message.text_eq_of_values (held.trans (by simp [textField]))
  refine ⟨(read.messages 2).map Message.pairOf, ?_, ?_⟩
  · have entries : (read.messages 2).Perm (pairs.map Message.entryOf) :=
      messages_response ▸ (agrees.entries.filterMap _).filterMap _
    have unpaired := entries.map Message.pairOf
    rw [map_pairOf_map_entryOf] at unpaired
    exact unpaired.trans permuted
  · rw [decoded]
    exact congrArg (fun text => Except.ok (EchoResponse.mk text _)) text

/-! ## Sizes -/

/-- The payload of a request in the binary form. -/
def requestPayload (text : String) : Bytes := (textRecords 1 text).flatMap Record.write

theorem encode_request (text : String) :
    Payload.encode .proto (⟨text⟩ : EchoRequest) = .ok (requestPayload text) := by
  have held : contents catalog .echoRequest (Message.ofText 1 text) =
      (textRecords 1 text).map written :=
    contents_ofText (rfl : catalog.field? .echoRequest 1 = some (textField 1 "message")) text
  have made : slot ((textRecords 1 text).map written) (.single (textField 1 "message")) =
      requestPayload text :=
    slot_text rfl
  have encoded : Binary.encode catalog .echoRequest (Message.ofText 1 text) =
      requestPayload text := by
    rw [Binary.encode, held, catalog, List.flatMap_singleton, made]
  exact congrArg Except.ok encoded

theorem length_requestPayload_le (text : String) :
    (requestPayload text).length ≤ 2 * (Utf8.encode text).length + 2 := by
  by_cases empty : text = ""
  · simp [requestPayload, textRecords, empty]
  · have key : (Binary.key 1 2).length = 1 := congrArg List.length (Varint.write_of_lt (by decide))
    have prefixed := Varint.length_write_le (Utf8.encode text).length
    rw [requestPayload, textRecords, if_neg empty, List.flatMap_singleton,
      Record.length_write_delimited, key]
    omega

def entryRecords (pair : String × String) : List (Nat × Record.Content) :=
  textRecords 1 pair.1 ++ textRecords 2 pair.2

def responseRecords (message : String) (entries : List Message) : List (Nat × Record.Content) :=
  textRecords 1 message ++ messageRecords catalog 2 .metadataEntry entries

theorem encode_entry (pair : String × String) :
    Binary.encode catalog .metadataEntry (Message.entryOf pair) =
      (entryRecords pair).flatMap Record.write := by
  have held : contents catalog .metadataEntry (Message.entryOf pair) =
      (entryRecords pair).map written := by
    rw [Message.entryOf, contents_append, entryRecords, List.map_append,
      contents_ofText (rfl : catalog.field? .metadataEntry 1 = some (textField 1 "key")),
      contents_ofText (rfl : catalog.field? .metadataEntry 2 = some (textField 2 "value"))]
  have madeKey : slot ((entryRecords pair).map written) (.single (textField 1 "key")) =
      (textRecords 1 pair.1).flatMap Record.write :=
    slot_text (by simp [entryRecords])
  have madeValue : slot ((entryRecords pair).map written) (.single (textField 2 "value")) =
      (textRecords 2 pair.2).flatMap Record.write :=
    slot_text (by simp [entryRecords])
  rw [Binary.encode, held, catalog, List.flatMap_cons, List.flatMap_cons, List.flatMap_nil,
    List.append_nil, madeKey, madeValue, entryRecords, List.flatMap_append]

theorem encode_response (message : String) (entries : List Message) :
    Binary.encode catalog .echoResponse
        (Message.ofText 1 message ++ messageEntries 2 entries) =
      (responseRecords message entries).flatMap Record.write := by
  have held : contents catalog .echoResponse
      (Message.ofText 1 message ++ messageEntries 2 entries) =
        (responseRecords message entries).map written := by
    rw [contents_append, responseRecords, List.map_append,
      contents_ofText (rfl : catalog.field? .echoResponse 1 = some (textField 1 "message")),
      contents_messageEntries (rfl : catalog.field? .echoResponse 2 =
        some ⟨2, "metadata", .message .metadataEntry, .map⟩)]
  have madeMessage : slot ((responseRecords message entries).map written)
      (.single (textField 1 "message")) = (textRecords 1 message).flatMap Record.write :=
    slot_text (by simp [responseRecords])
  have madeEntries : slot ((responseRecords message entries).map written)
      (.single ⟨2, "metadata", .message MessageType.metadataEntry, .map⟩) =
        (messageRecords catalog 2 .metadataEntry entries).flatMap Record.write :=
    slot_messages (by simp) (by simp [responseRecords])
  rw [Binary.encode, held, catalog, List.flatMap_cons, List.flatMap_cons, List.flatMap_nil,
    List.append_nil, madeMessage, madeEntries, responseRecords, List.flatMap_append]

/-- The size of a response in the binary form. It does not depend on the order of the metadata. -/
theorem length_encode_response {response : EchoResponse} {payload : Bytes}
    (distinct : (response.metadata.map Prod.fst).Nodup)
    (encoded : Payload.encode .proto response = .ok payload) :
    payload.length = ((responseRecords response.message
      (response.metadata.map Message.entryOf)).flatMap Record.write).length := by
  obtain ⟨pairs, permuted, shape⟩ := toMessage_response distinct
  rw [Payload.encode, shape] at encoded
  cases encoded
  have type : Payload.type EchoResponse = .echoResponse := rfl
  rw [type, encode_response]
  refine List.Perm.length_eq (List.Perm.flatMap_right _ (List.Perm.append_left _ ?_))
  exact (permuted.map Message.entryOf).map _

/-- A response in the binary form is no shorter than its message. -/
theorem length_message_le_encode {response : EchoResponse} {payload : Bytes}
    (distinct : (response.metadata.map Prod.fst).Nodup)
    (encoded : Payload.encode .proto response = .ok payload) :
    (Utf8.encode response.message).length ≤ payload.length := by
  rw [length_encode_response distinct encoded, responseRecords, List.flatMap_append,
    List.length_append]
  by_cases empty : response.message = ""
  · rw [empty]
    exact Nat.zero_le _
  · rw [textRecords, if_neg empty, List.flatMap_singleton, Record.length_write_delimited]
    omega

end RpcEcho.Api
