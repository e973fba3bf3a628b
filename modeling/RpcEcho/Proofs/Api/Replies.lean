import RpcEcho.Proofs.Api.EchoMessages

/-!
# Replies there and back

What unary methods give is read back from its payload: an echo with its metadata in some order, and
the state of a service with its number. `Lossless` collects what a caller may rely on.
-/

namespace RpcEcho.Api

open Proto

/-! ## The state of a service -/

def statusField : MessageField MessageType :=
  ⟨1, "status", .scalar (.enumeration "ServingStatus" servingStates), .implicit⟩

theorem isMessage_state {response : HealthCheckResponse} (inRange : FitsWord response.status) :
    catalog.IsMessage .healthCheckResponse (Payload.toMessage response) := by
  refine .message ⟨?_, ?_, ?_⟩ ?_
  · intro entry member
    rw [Message.eq_of_mem_ofInt member]
    exact Option.some_ne_none _
  · change ((Message.ofInt 1 response.status).map Prod.fst).Pairwise _
    rw [Message.ofInt]
    split <;> simp
  · intro slot member
    rw [List.mem_singleton.mp member]
    exact admits_int rfl response.status rfl
  · intro entry member field known
    rw [Message.eq_of_mem_ofInt member] at known ⊢
    cases known
    exact .scalar inRange

theorem fitsWord_number (state : ServingStatus) : FitsWord state.number := by
  cases state <;> exact ⟨by decide, by decide⟩

/-- Each state has a name. -/
theorem not_hasUnnamed_state (state : ServingStatus) :
    ¬ HasUnnamed catalog (.message .healthCheckResponse)
      (.message (Payload.toMessage (HealthCheckResponse.of state))) := by
  intro unnamed
  cases unnamed with
  | inside member found inner =>
      rw [Message.eq_of_mem_ofInt member] at found inner
      cases found
      cases inner with
      | number noName =>
          have isListed : (state.name, state.number) ∈ servingStates := by
            cases state <;> decide
          exact noName _ isListed rfl

theorem exists_encode_state (codec : Codec) (state : ServingStatus) :
    ∃ payload, Payload.encode codec (HealthCheckResponse.of state) = .ok payload :=
  exists_encode_payload codec (isMessage_state (fitsWord_number state)) (not_hasUnnamed_state state)

theorem decode_encode_state {codec : Codec} {response : HealthCheckResponse} {payload : Bytes}
    (inRange : FitsWord response.status) (encoded : Payload.encode codec response = .ok payload)
    (fits : payload.length < Varint.bound) : Payload.decode codec payload = .ok response := by
  obtain ⟨read, decoded, agrees⟩ := decode_encode_payload (isMessage_state inRange) encoded fits
  have status : read.int 1 = response.status :=
    Message.int_eq_of_values (agrees.ordered statusField (by decide) (by decide))
  rw [decoded]
  exact congrArg (fun status => Except.ok (HealthCheckResponse.mk status)) status

/-! ## What callers rely on -/

/-- Types whose values a caller reads back from their payloads, with the values that the types of
the wire admit and what callers do not tell apart. -/
class Lossless (ο : Type) [Payload ο] where
  /-- The values that the type of the wire has. -/
  IsValue : ο → Prop
  /-- The same value but for the order of the entries of a map. -/
  Same : ο → ο → Prop
  decode_encode : ∀ {codec : Codec} {value : ο} {payload : Bytes}, IsValue value →
    Payload.encode codec value = .ok payload → payload.length < Varint.bound →
      ∃ read, Payload.decode codec payload = .ok read ∧ Same read value

instance : Lossless EchoResponse where
  IsValue response := (response.metadata.map Prod.fst).Nodup
  Same read response :=
    read.message = response.message ∧ read.metadata.Perm response.metadata
  decode_encode := by
    intro codec response payload distinct encoded fits
    obtain ⟨metadata, permuted, found⟩ := decode_encode_response distinct encoded fits
    exact ⟨_, found, rfl, permuted⟩

instance : Lossless HealthCheckResponse where
  IsValue response := -2147483648 ≤ response.status ∧ response.status < 2147483648
  Same read response := read = response
  decode_encode := by
    intro codec response payload inRange encoded fits
    exact ⟨response, decode_encode_state inRange encoded fits, rfl⟩

end RpcEcho.Api
