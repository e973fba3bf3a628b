import RpcEcho.Proofs.Services.Join

/-!
# Joined messages of any length

The messages of a call are limited one by one, and what is said back is no shorter than all of them
together. So the reply of a call that joins texts has no bound, and the length field in front of it
may be too small for it.

* `length_encode_intercalate`: how long joined texts are;
* `clientStream_delimits_iff`: the body of a response tells where its message ends exactly if the
  length of the payload fits its field;
* `clientStream_undelimited`: a call whose response does not.
-/

namespace RpcEcho

/-- Joined texts are as long as all of them and what stands between them. -/
theorem Utf8.length_encode_intercalate (separator first : String) (texts : List String) :
    (encode (separator.intercalate (first :: texts))).length =
      ((first :: texts).map fun text => (encode text).length).sum +
        texts.length * (encode separator).length := by
  induction texts generalizing first with
  | nil => simp
  | cons second texts inductionHypothesis =>
      rw [String.intercalate_cons_cons, encode_append, encode_append, List.length_append,
        List.length_append, inductionHypothesis, List.length_cons, Nat.succ_mul]
      simp only [List.map_cons, List.sum_cons]
      omega

namespace Echo

open Api RequestBody

/-- A joined message in the binary form is no shorter than its texts together. -/
theorem sum_le_length_joined {metadata : Metadata} (distinct : (metadata.map Prod.fst).Nodup)
    {texts : List String} {payload : Bytes}
    (encoded : Payload.encode .proto (joined metadata texts).message = .ok payload) :
    (texts.map fun text => (Utf8.encode text).length).sum ≤ payload.length := by
  refine Nat.le_trans ?_ (length_message_le_encode distinct encoded)
  cases texts with
  | nil => exact Nat.zero_le _
  | cons first texts =>
      rw [joined, Utf8.length_encode_intercalate]
      exact Nat.le_add_right _ _

/-! ## Calls -/

section Calls

variable {server : Server} {request : Request} {wire : WireFormat} {drainAt : Option Nat}
  {texts : List String}

/-- The response of a call that joins texts tells where its message ends exactly if the payload is
shorter than `2 ^ 32` octets, whatever the length of each text. -/
theorem clientStream_delimits_iff (calls : server.Calls request .clientStream wire)
    (holds : HoldsTexts wire request.body texts) (inTime : request.IsInTime wire)
    (notDrained : ∀ time, drainAt = some time → waits request.body.parts < time) :
    ∃ response time payload,
      server.answer drainAt request = some (Transcript.ofResponse response time) ∧
        Payload.encode wire.codec (joined (Metadata.ofHeaders request.headers) texts).message =
          .ok payload ∧
        (wire.Delimits payload wire.successEnvelopes
            (ResponseFrame.octetsOf response.frames) ↔
          payload.length < Bytes.wordBound) := by
  have enveloped := MethodKind.isEnveloped_of_accepts (by decide) calls.accepted
  have distinct : ((joined (Metadata.ofHeaders request.headers) texts).message.metadata.map
      Prod.fst).Nodup := (Metadata.holdsExactly_ofHeaders calls.headers.distinct).distinct
  obtain ⟨payload, encoded⟩ := exists_encode_response wire.codec distinct
  obtain ⟨time, answered⟩ := answer_of_receives calls
    (receives_of_holds holds inTime notDrained) fun message impossible => nomatch impossible
  refine ⟨_, time, payload, answered, encoded, ?_⟩
  have frames := congrArg Response.frames (Response.unary_of_enveloped enveloped encoded)
  have fits := ResponseFrame.delimits_message_last_iff payload (.ok Headers.empty) enveloped
  rw [wire.lastEnvelopes_success] at fits
  change wire.Delimits _ _ (ResponseFrame.octetsOf (Response.unary wire (.ok _)).frames) ↔ _
  rw [frames]
  exact fits.trans (and_iff_left wire.successEnvelopes_short)

end Calls

/-! ## Texts that are too long together -/

/-- The requests for some texts, in the binary form and in one piece. -/
def bodyOfTexts (texts : List String) : RequestBody :=
  ⟨[.data (texts.flatMap fun text => Envelope.wrap (requestPayload text) Flags.message) 0],
    .complete⟩

theorem holdsTexts_bodyOfTexts {texts : List String}
    (short : ∀ text ∈ texts, (requestPayload text).length ≤ Envelope.maxPayload) :
    HoldsTexts (.grpc .proto) (bodyOfTexts texts) texts := by
  refine ⟨texts.map requestPayload, [], ?_, .body rfl, ?_⟩
  · exact List.forall₂_map_right_iff.mpr
      (List.forall₂_same.mpr fun text member => ⟨encode_request text, short text member⟩)
  · rw [List.flatMap_map, List.append_nil]
    exact List.append_nil _

/-- A text of one letter, written many times. -/
def letters (count : Nat) : String := String.ofList (List.replicate count 'a')

theorem length_encode_letters (count : Nat) : (Utf8.encode (letters count)).length = count := by
  have ascii : ∀ c ∈ List.replicate count 'a', c.toNat < 128 := by
    intro c member
    rw [List.eq_of_mem_replicate member]
    decide
  rw [letters, Utf8.encode_ofList_of_ascii ascii, List.length_map, List.length_replicate]

/-- A call with a text of `2 ^ 16` letters in each of `2 ^ 16` messages. -/
def longRequest : Request :=
  { pairRequest true with body := bodyOfTexts (List.replicate 65536 (letters 65536)) }

theorem clientStream_undelimited :
    HoldsTexts (.grpc .proto) longRequest.body (List.replicate 65536 (letters 65536)) ∧
      ∃ response time payload,
        Server.answer ⟨{}⟩ none longRequest = some (Transcript.ofResponse response time) ∧
          Payload.encode .proto (joined (Metadata.ofHeaders longRequest.headers)
            (List.replicate 65536 (letters 65536))).message = .ok payload ∧
          ¬ (WireFormat.grpc .proto).Delimits payload []
            (ResponseFrame.octetsOf response.frames) := by
  have short : ∀ text ∈ List.replicate 65536 (letters 65536),
      (requestPayload text).length ≤ Envelope.maxPayload := by
    intro text member
    have bound := length_requestPayload_le text
    rw [List.eq_of_mem_replicate member, length_encode_letters] at bound
    rw [List.eq_of_mem_replicate member]
    exact Nat.le_trans bound (by decide)
  have holds : HoldsTexts (.grpc .proto) longRequest.body _ := holdsTexts_bodyOfTexts short
  have calls : Server.Calls ⟨{}⟩ longRequest .clientStream (.grpc .proto) :=
    (calls_pairRequest true).withBody _
  have unlimited : Timeout.ofHeaders? (.grpc .proto) noteHeaders = none := by decide
  have inTime : longRequest.IsInTime (.grpc .proto) := Request.isInTime_of_unlimited unlimited
  have notDrained : ∀ time, none = some time → waits longRequest.body.parts < time :=
    fun time drained => (nomatch drained)
  obtain ⟨response, time, payload, answered, encoded, delimits⟩ :=
    clientStream_delimits_iff calls holds inTime notDrained
  refine ⟨holds, response, time, payload, answered, encoded, fun delimited => ?_⟩
  -- The reply is never written out: only how long it must be is known.
  have long := sum_le_length_joined
    (by decide : ((Metadata.ofHeaders noteHeaders).map Prod.fst).Nodup) encoded
  rw [List.map_replicate, List.sum_replicate_nat, length_encode_letters] at long
  exact absurd (delimits.mp delimited) (Nat.not_lt.mpr (Nat.le_trans (by decide) long))

end Echo

end RpcEcho
