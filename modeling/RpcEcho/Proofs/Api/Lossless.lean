import RpcEcho.Api.Message
import RpcEcho.Proofs.Proto.BinaryForm
import RpcEcho.Proofs.Proto.JsonForm

/-!
# Both codecs lose nothing

The messages that the services exchange nest at most two deep, each number has one name, and each
key finds its field. So both codecs bring every message back: with the entries of its maps in the
order of a map, and the rest as it was. Only a number without a name has no JSON.
-/

namespace RpcEcho.Api

open Proto

/-- How deep the messages of a type nest. -/
def depth : MessageType → Nat
  | .serverReflectionResponse => 2
  | .echoResponse | .serverReflectionRequest | .listServiceResponse => 1
  | _ => 0

/-- Whether what a field holds nests less deep than its type. -/
def nestsLess (type : MessageType) (field : MessageField MessageType) : Bool :=
  match field.type with
  | .message inner => depth inner < depth type
  | .scalar _ => true

theorem isSound_catalog : catalog.IsSound depth where
  increasing := by intro type; cases type <;> decide
  numbers := by intro type; cases type <;> decide
  fields := by intro type; cases type <;> decide
  slots := by intro type; cases type <;> decide
  nests := by
    have each : ∀ type, ∀ field ∈ catalog.fields type, nestsLess type field = true := by
      intro type
      cases type <;> decide
    intro type field member inner isMessage
    have less := each type field member
    rw [nestsLess, isMessage] at less
    exact of_decide_eq_true less

theorem namesFind_catalog : JsonForm.NamesFind catalog := by
  have byKey : ∀ type, ∀ slot ∈ catalog type, ∀ field ∈ slot.fields,
      JsonForm.field? catalog type (JsonForm.key field) = some (slot, field) := by
    intro type
    cases type <;> decide
  have byOwnName : ∀ type, ∀ slot ∈ catalog type, ∀ field ∈ slot.fields,
      JsonForm.field? catalog type field.name = some (slot, field) := by
    intro type
    cases type <;> decide
  rintro type slot isSlot field isField name (rfl | rfl)
  · exact byKey type slot isSlot field isField
  · exact byOwnName type slot isSlot field isField

theorem depth_le_maxDepth (type : MessageType) : depth type ≤ Binary.maxDepth := by
  cases type <;> decide

/-! ## Each codec -/

/-- A message whose binary form can be addressed comes back. -/
theorem decode_encode_proto {type : MessageType} {message : Message}
    (valid : catalog.IsMessage type message)
    (fits : (Binary.encode catalog type message).length < Varint.bound) :
    ∃ payload read, Codec.encode .proto type message = .ok payload ∧
      Codec.decode .proto type payload = .ok read ∧ Message.Agrees catalog type read message := by
  have found := Binary.decodeWithin?_encode isSound_catalog valid (depth_le_maxDepth type) fits
  have keeps : ∀ entries : List Message, (id entries).Perm entries := fun _ => .refl _
  cases valid with
  | message shaped each =>
      refine ⟨_, _, rfl, ?_, agrees_arranged isSound_catalog keeps shaped each⟩
      rw [Codec.decode, Codec.decode?, Binary.decode?, found]

theorem encode_json_eq (type : MessageType) (message : Message) :
    Codec.encode .json type message =
      match JsonForm.ofMessage catalog type message with
      | .ok object => .ok object.encode
      | .error unnamed => .error (Codec.unwritable unnamed) := rfl

/-- A message cannot be written as JSON just if a number without a name stands in it. -/
theorem encode_json_error_iff {type : MessageType} {message : Message} :
    (∃ status, Codec.encode .json type message = .error status ∧ status.code = .internal) ↔
      HasUnnamed catalog (.message type) (.message message) := by
  rw [← JsonForm.exists_error_iff, JsonForm.ofValue, encode_json_eq, JsonForm.ofMessage]
  cases JsonForm.ofEntries catalog type message with
  | error unnamed =>
      exact ⟨fun _ => ⟨unnamed, rfl⟩, fun _ => ⟨Codec.unwritable unnamed, rfl, rfl⟩⟩
  | ok written =>
      constructor
      · rintro ⟨status, fails, _⟩
        cases fails
      · rintro ⟨unnamed, fails⟩
        cases fails

/-- What is written for a message is a text of one of its JSON forms. -/
theorem presents_of_encode {type : MessageType} {message : Message}
    (valid : catalog.IsMessage type message) {payload : Bytes}
    (encoded : Codec.encode .json type message = .ok payload) :
    ∃ json, JsonForm.Presents catalog (.message type) (.message message) json ∧
      Json.IsPayload json payload := by
  rw [encode_json_eq, JsonForm.ofMessage] at encoded
  cases wrote : JsonForm.ofEntries catalog type message with
  | error unnamed =>
      rw [wrote] at encoded
      cases encoded
  | ok written =>
      rw [wrote] at encoded
      cases encoded
      have writes : JsonForm.ofValue catalog (.message type) (.message message) =
          .ok (JsonForm.object catalog type message written) := by
        rw [JsonForm.ofValue, wrote]
        rfl
      have exact := JsonForm.isExact_of_ofValue isSound_catalog valid writes
      exact ⟨_, JsonForm.presents_of_ofValue isSound_catalog namesFind_catalog valid writes,
        Json.isPayload_encode exact⟩

/-- A text of an object is read as the object is. -/
theorem decode?_of_isPayload (type : MessageType) {members : List (Option String × Json)}
    {octets : Bytes} (isPayload : Json.IsPayload (.object members) octets) :
    Codec.decode? .json type octets = JsonForm.toMessage? catalog type (.object members) := by
  rw [Codec.decode?, Json.all_isBlank_of_isPayload isPayload, if_neg Bool.false_ne_true,
    Json.parse?_of_isPayload isPayload, Option.bind_some]

/-- Every text of every JSON form of a message is read as the message. -/
theorem decode_of_presents {type : MessageType} {message : Message}
    (valid : catalog.IsMessage type message) {json : Json}
    (presents : JsonForm.Presents catalog (.message type) (.message message) json) {octets : Bytes}
    (isPayload : Json.IsPayload json octets) :
    ∃ read, Codec.decode .json type octets = .ok read ∧
      Message.Agrees catalog type read message := by
  obtain ⟨held, isRead, holds⟩ :=
    JsonForm.toMessage?_of_presents isSound_catalog namesFind_catalog valid presents
  cases valid with
  | message shaped _ =>
      refine ⟨_, ?_, JsonForm.agrees_of_holdsAs isSound_catalog shaped holds⟩
      cases presents with
      | message _ _ _ _ => rw [Codec.decode, decode?_of_isPayload type isPayload, isRead]

/-- A message without such a number comes back. -/
theorem decode_encode_json {type : MessageType} {message : Message}
    (valid : catalog.IsMessage type message)
    (named : ¬ HasUnnamed catalog (.message type) (.message message)) :
    ∃ payload read, Codec.encode .json type message = .ok payload ∧
      Codec.decode .json type payload = .ok read ∧ Message.Agrees catalog type read message := by
  rw [← JsonForm.exists_error_iff, JsonForm.ofValue] at named
  cases wrote : JsonForm.ofEntries catalog type message with
  | error unnamed => exact absurd ⟨unnamed, by rw [wrote]; rfl⟩ named
  | ok written =>
      have encoded : Codec.encode .json type message =
          .ok (JsonForm.object catalog type message written).encode := by
        rw [encode_json_eq, JsonForm.ofMessage, wrote]
        rfl
      obtain ⟨json, presents, isPayload⟩ := presents_of_encode valid encoded
      obtain ⟨read, decoded, agrees⟩ := decode_of_presents valid presents isPayload
      exact ⟨_, read, encoded, decoded, agrees⟩

/-! ## Both -/

/-- Both codecs bring back every message of every type, up to the order in which maps hold their
entries. The binary form needs nothing but room for its octets, whose number it writes with at most
sixty-four bits; a number without a name is the only reason for which a message has no JSON. -/
theorem codecs_lossless {type : MessageType} {message : Message}
    (valid : catalog.IsMessage type message) :
    ((Binary.encode catalog type message).length < Varint.bound →
      ∃ payload read, Codec.encode .proto type message = .ok payload ∧
        Codec.decode .proto type payload = .ok read ∧
        Message.Agrees catalog type read message) ∧
    ((∃ status, Codec.encode .json type message = .error status ∧ status.code = .internal) ↔
      HasUnnamed catalog (.message type) (.message message)) ∧
    (¬ HasUnnamed catalog (.message type) (.message message) →
      ∃ payload read, Codec.encode .json type message = .ok payload ∧
        Codec.decode .json type payload = .ok read ∧
        Message.Agrees catalog type read message) :=
  ⟨decode_encode_proto valid, encode_json_error_iff, decode_encode_json valid⟩

/-- An answer about an extension: the request holds an empty message as its choice, and the list of
numbers holds the least one and zero. -/
def extensionAnswer : Message :=
  [(2, .message [(5, .message [])]),
    (5, .message [(2, .int (-2147483648)), (2, .int 0)])]

theorem isMessage_extensionAnswer :
    catalog.IsMessage .serverReflectionResponse extensionAnswer := by
  have empty : catalog.IsMessage .extensionRequest [] := .message (by decide) (by simp)
  have request : catalog.IsMessage .serverReflectionRequest [(5, .message [])] := by
    refine .message (by decide) ?_
    intro entry member field known
    rw [List.mem_singleton.mp member] at known ⊢
    cases known
    exact empty
  have numbers : catalog.IsMessage .extensionNumberResponse
      [(2, .int (-2147483648)), (2, .int 0)] := by
    refine .message (by decide) ?_
    intro entry member field known
    have isNumber : entry.1 = 2 ∧ ∃ number, entry.2 = .int number ∧ FitsWord number := by
      rcases List.mem_cons.mp member with rfl | isLast
      · exact ⟨rfl, _, rfl, by decide, by decide⟩
      · rw [List.mem_singleton.mp isLast]
        exact ⟨rfl, _, rfl, by decide, by decide⟩
    obtain ⟨number, _, isInt, fits⟩ := isNumber
    rw [number] at known
    cases known
    rw [isInt]
    exact .scalar fits
  refine .message (by decide) ?_
  intro entry member field known
  rcases List.mem_cons.mp member with rfl | isLast
  · cases known
    exact request
  · rw [List.mem_singleton.mp isLast] at known ⊢
    cases known
    exact numbers

theorem extensionAnswer_survives :
    (∃ payload read, Codec.encode .proto .serverReflectionResponse extensionAnswer = .ok payload ∧
      Codec.decode .proto .serverReflectionResponse payload = .ok read ∧
      Message.Agrees catalog .serverReflectionResponse read extensionAnswer) ∧
    ∃ payload read, Codec.encode .json .serverReflectionResponse extensionAnswer = .ok payload ∧
      Codec.decode .json .serverReflectionResponse payload = .ok read ∧
      Message.Agrees catalog .serverReflectionResponse read extensionAnswer := by
  obtain ⟨binary, _, json⟩ := codecs_lossless isMessage_extensionAnswer
  refine ⟨binary (by decide +kernel), json fun unnamed => ?_⟩
  obtain ⟨_, fails⟩ := JsonForm.exists_error_iff.mpr unnamed
  cases fails

/-! ## Values of services -/

section Payloads

variable {α : Type} [Payload α] {value : α}

/-- What a service gives or takes comes back as a message that holds the same. -/
theorem decode_encode_payload {codec : Codec}
    (valid : catalog.IsMessage (Payload.type α) (Payload.toMessage value)) {payload : Bytes}
    (encoded : Payload.encode codec value = .ok payload) (fits : payload.length < Varint.bound) :
    ∃ read, Payload.decode codec payload = .ok (Payload.ofMessage read : α) ∧
      Message.Agrees catalog (Payload.type α) read (Payload.toMessage value) := by
  have comesBack : ∃ read, Codec.decode codec (Payload.type α) payload = .ok read ∧
      Message.Agrees catalog (Payload.type α) read (Payload.toMessage value) := by
    cases codec with
    | proto =>
        cases encoded
        obtain ⟨_, read, written, decoded, agrees⟩ := decode_encode_proto valid fits
        cases written
        exact ⟨read, decoded, agrees⟩
    | json =>
        have named : ¬ HasUnnamed catalog (.message (Payload.type α))
            (.message (Payload.toMessage value)) := by
          intro unnamed
          obtain ⟨status, fails, _⟩ := encode_json_error_iff.mpr unnamed
          cases fails.symm.trans encoded
        obtain ⟨_, read, written, decoded, agrees⟩ := decode_encode_json valid named
        cases encoded.symm.trans written
        exact ⟨read, decoded, agrees⟩
  obtain ⟨read, decoded, agrees⟩ := comesBack
  refine ⟨read, ?_, agrees⟩
  rw [Payload.decode, decoded]
  rfl

theorem exists_encode_payload (codec : Codec)
    (valid : catalog.IsMessage (Payload.type α) (Payload.toMessage value))
    (named : ¬ HasUnnamed catalog (.message (Payload.type α))
      (.message (Payload.toMessage value))) :
    ∃ payload, Payload.encode codec value = .ok payload := by
  cases codec with
  | proto => exact ⟨_, rfl⟩
  | json =>
      obtain ⟨payload, _, written, _⟩ := decode_encode_json valid named
      exact ⟨payload, written⟩

end Payloads

/-! ## Types without names for numbers -/

/-- Whether a field holds no number that should have a name, in itself or in the messages of some
types. -/
def hasNoNames (types : MessageType → Bool) : FieldType MessageType → Bool
  | .scalar (.enumeration _ _) => false
  | .scalar _ => true
  | .message type => types type

theorem not_hasUnnamed_of_hasNoNames {types : MessageType → Bool}
    (closed : ∀ type, types type = true →
      ∀ field ∈ catalog.fields type, hasNoNames types field.type = true)
    {type : FieldType MessageType} (noNames : hasNoNames types type = true) {value : Value} :
    ¬ HasUnnamed catalog type value := by
  intro unnamed
  induction unnamed with
  | number unnamed => cases noNames
  | inside member found _ inductionHypothesis =>
      exact inductionHypothesis (closed _ noNames _ (List.mem_of_find?_eq_some found))

/-- Only the state of a service is a number that should have a name, so every other message can be
written. -/
theorem exists_encode_of_ne {α : Type} [Payload α] (codec : Codec) (value : α)
    (notState : Payload.type α ≠ .healthCheckResponse) :
    ∃ payload, Payload.encode codec value = .ok payload := by
  cases codec with
  | proto => exact ⟨_, rfl⟩
  | json =>
      have closed : ∀ type, (type != .healthCheckResponse) = true →
          ∀ field ∈ catalog.fields type,
            hasNoNames (· != .healthCheckResponse) field.type = true := by
        intro type
        cases type <;> decide
      have named := @not_hasUnnamed_of_hasNoNames _ closed (.message (Payload.type α))
        (bne_iff_ne.mpr notState) (.message (Payload.toMessage value))
      rw [← encode_json_error_iff] at named
      rw [Payload.encode]
      cases encoded : Codec.encode .json (Payload.type α) (Payload.toMessage value) with
      | ok payload => exact ⟨payload, rfl⟩
      | error status =>
          refine absurd ⟨status, encoded, ?_⟩ named
          rw [encode_json_eq] at encoded
          cases wrote : JsonForm.ofMessage catalog (Payload.type α) (Payload.toMessage value) with
          | ok object =>
              rw [wrote] at encoded
              cases encoded
          | error unnamed =>
              rw [wrote] at encoded
              cases encoded
              rfl

end RpcEcho.Api
