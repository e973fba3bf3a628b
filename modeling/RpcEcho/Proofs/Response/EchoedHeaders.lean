import Mathlib.Data.List.Nodup
import RpcEcho.Proofs.Response.Unary

/-!
# Headers that come back

Callers choose the names and values of their headers, and most of them come back: in the messages,
and as trailers next to the status or next to the content type. Trailers hold names of the
application only, so the status, its message and the content type are always those of the server,
in whatever order the metadata is gone through.

* `Trailers.IsOutcome`: what trailers hold that tell an outcome beside entries of the application.
* `EchoesApart`: all that comes back of some headers, and where.
-/

namespace RpcEcho

/-! ## Trailers beside a status -/

namespace Trailers

/-- The number of the code of an outcome: that of the failure, or that of success. -/
def numberOf (failure : Option Status) : Bytes :=
  Bytes.ofAscii ((failure.map Status.code).getD .ok).number.repr

/-- What trailers hold that tell an outcome: the number of its code, its coded message if it has
one, and entries of others. -/
def IsOutcome (failure : Option Status) (others : String → Bytes → Prop) (name : String)
    (value : Bytes) : Prop :=
  (name = statusName ∧ value = numberOf failure) ∨
    (name = messageName ∧ ∃ message, failure.bind Status.message = some message ∧
      value = Percent.encode message) ∨
    others name value

/-- The entries of the application stand beside the status, which none of them touches. -/
theorem holdsExactly_ofOutcome {pairs : List (String × Bytes)} {others : String → Bytes → Prop}
    (holds : HoldsExactly pairs others)
    (free : ∀ name value, others name value → HeaderName.isProtocol name = false)
    (failure : Option Status) :
    HoldsExactly (ofOutcome failure ⟨Headers.entriesOf pairs⟩).toList
      (IsOutcome failure others) := by
  have noStatus : ∀ value, ¬ others statusName value := fun value isOther =>
    absurd (free _ _ isOther) (by decide)
  have noMessage : ∀ value, ¬ others messageName value := fun value isOther =>
    absurd (free _ _ isOther) (by decide)
  obtain ⟨withStatus, inserted, holdsStatus⟩ :=
    Headers.exists_insert_entriesOf holds noStatus (numberOf failure)
  -- A message comes last, and only a failure can have one.
  cases message : failure.bind Status.message with
  | none =>
      have told : ofOutcome failure ⟨Headers.entriesOf pairs⟩ =
          ⟨Headers.entriesOf withStatus⟩ := by
        rw [← inserted]
        cases failure with
        | none => rfl
        | some status => simp_all [ofOutcome, numberOf]
      rw [told, Headers.toList_entriesOf]
      refine holdsStatus.congr fun name value => or_congr Iff.rfl ?_
      simp [message]
  | some text =>
      have isNew : ∀ value, ¬ ((messageName = statusName ∧ value = numberOf failure) ∨
          others messageName value) := fun value isOld =>
        isOld.elim (fun same => absurd same.1 (by decide)) (noMessage value)
      obtain ⟨all, insertedToo, holdsAll⟩ :=
        Headers.exists_insert_entriesOf holdsStatus isNew (Percent.encode text)
      have told : ofOutcome failure ⟨Headers.entriesOf pairs⟩ = ⟨Headers.entriesOf all⟩ := by
        rw [← insertedToo, ← inserted]
        cases failure with
        | none => cases message
        | some status => simp_all [ofOutcome, numberOf]
      rw [told, Headers.toList_entriesOf]
      refine holdsAll.congr fun name value => ?_
      rw [IsOutcome, message, or_left_comm]
      simp

end Trailers

/-! ## What comes back -/

/-- What the headers of a request bring back, once their metadata is gone through in some order. -/
structure EchoesApart (headers : Headers) (metadata : Metadata) : Prop where
  /-- The metadata has each name that does not speak about one connection, with its first value, if
  that is text. -/
  shown : HoldsExactly metadata fun name text =>
    HeaderName.isHopByHop name = false ∧ headers.firstText? name = some text
  /-- The trailers have each name of the metadata that no protocol owns, once, with its value. -/
  returned : HoldsExactly metadata.trailers.toList fun name value =>
    HeaderName.isProtocol name = false ∧ ∃ text, (name, text) ∈ metadata ∧
      Utf8.encode text = value
  /-- The order does not matter. -/
  anyOrder : metadata.trailers.toList.Perm (Metadata.ofHeaders headers).trailers.toList
  /-- The metadata of the trailers is the metadata without the names that protocols own. -/
  shownAgain : HoldsExactly (Metadata.ofHeaders metadata.trailers) fun name text =>
    HeaderName.isProtocol name = false ∧ (name, text) ∈ metadata
  /-- No trailer has the name of the status or of its message. -/
  noStatus : ∀ name value, (name, value) ∈ metadata.trailers.toList →
    name ≠ Trailers.statusName ∧ name ≠ Trailers.messageName
  /-- Trailers that tell an outcome have its status, its message if it has one, and the trailers. -/
  status : ∀ failure, HoldsExactly (Trailers.ofOutcome failure metadata.trailers).toList
    (Trailers.IsOutcome failure fun name value => (name, value) ∈ metadata.trailers.toList)
  /-- The head of a reply without envelopes has its content type, and trailers under names that say
  so. -/
  head : ∀ {ο : Type} [Payload ο] (codec : Codec) (message : ο) (payload : Bytes),
    Payload.encode codec message = .ok payload →
      let reply := Response.unary (.connectUnary codec) (.ok ⟨message, metadata.trailers⟩)
      reply.status = 200 ∧ HoldsExactly reply.headers.toList fun name value =>
        (name = "content-type" ∧
          value = Bytes.ofAscii (WireFormat.connectUnary codec).contentType) ∨
        ((Utf8.encode name).length ≤ HeaderName.maxLength ∧
          ∃ own, name = "trailer-" ++ own ∧ (own, value) ∈ metadata.trailers.toList)

/-- Lists that hold the same pairs hold them in some order. -/
theorem HoldsExactly.perm {alpha : Type} {pairs others : List (String × alpha)}
    {expected : String → alpha → Prop} (holds : HoldsExactly pairs expected)
    (otherHolds : HoldsExactly others expected) : pairs.Perm others :=
  (List.perm_ext_iff_of_nodup (List.Nodup.of_map _ holds.distinct)
    (List.Nodup.of_map _ otherHolds.distinct)).mpr fun pair =>
      (holds.mem_iff pair.1 pair.2).trans (otherHolds.mem_iff pair.1 pair.2).symm

/-- What may go back is shown again as the text that it was. -/
theorem Headers.shows_of_returns {headers : Headers} {pairs : List (String × Bytes)}
    (holds : HoldsExactly pairs headers.Returns) (name text : String) :
    (⟨entriesOf pairs⟩ : Headers).Shows name text ↔
      HeaderName.isProtocol name = false ∧ headers.Shows name text := by
  have distinct : (⟨entriesOf pairs⟩ : Headers).names.Nodup := by
    rw [Metadata.names_entriesOf]
    exact holds.distinct
  rw [Shows, firstText?_eq_some_iff distinct]
  constructor
  · rintro ⟨_, values, member, isText⟩
    obtain ⟨⟨own, value⟩, inPairs, same⟩ := List.mem_map.mp member
    cases same
    obtain ⟨free, shown, isShown, rfl⟩ := (holds.mem_iff _ _).mp inPairs
    have isValue : HeaderValue.text? (Utf8.encode shown) = some text := isText
    cases Utf8.encode_injective (HeaderValue.encode_of_text? isValue)
    exact ⟨free, isShown⟩
  · rintro ⟨free, isShown⟩
    obtain ⟨value, _, isText⟩ := Option.bind_eq_some_iff.mp isShown.2
    have inPairs : (name, value) ∈ pairs :=
      (holds.mem_iff _ _).mpr ⟨free, text, isShown, HeaderValue.encode_of_text? isText⟩
    exact ⟨isShown.1, [value], List.mem_map_of_mem inPairs, isText⟩

/-- Whatever headers a caller sends, and in whatever order their metadata is gone through, what
comes back stands apart from what the server says. -/
theorem echoesApart_of_perm {headers : Headers} (wellFormed : headers.IsWellFormed)
    {metadata : Metadata} (permuted : metadata.Perm (Metadata.ofHeaders headers)) :
    EchoesApart headers metadata := by
  have holds : HoldsExactly metadata headers.Shows :=
    (Metadata.holdsExactly_ofHeaders wellFormed.distinct).of_perm permuted
  obtain ⟨pairs, made, returns⟩ := Metadata.exists_trailers_of_shows wellFormed holds
  obtain ⟨inOrder, madeInOrder, returnsInOrder⟩ := Metadata.exists_trailers_ofHeaders wellFormed
  have isList : metadata.trailers.toList = pairs := by rw [made, Headers.toList_entriesOf]
  have own : HoldsExactly pairs fun name value => (name, value) ∈ metadata.trailers.toList :=
    ⟨returns.distinct, fun name value => by rw [isList]⟩
  have free : ∀ name value, (name, value) ∈ metadata.trailers.toList →
      HeaderName.isProtocol name = false := fun name value member =>
    ((returns.mem_iff name value).mp ((own.mem_iff name value).mpr member)).1
  refine ⟨holds, ?_, ?_, ?_, fun name value member => ⟨?_, ?_⟩, fun failure => ?_, ?_⟩
  · rw [isList]
    refine returns.congr fun name value => and_congr Iff.rfl (exists_congr fun text => ?_)
    rw [holds.mem_iff]
  · rw [isList, madeInOrder, Headers.toList_entriesOf]
    exact returns.perm returnsInOrder
  · rw [made]
    have distinct : (⟨Headers.entriesOf pairs⟩ : Headers).names.Nodup := by
      rw [Metadata.names_entriesOf]
      exact returns.distinct
    refine (Metadata.holdsExactly_ofHeaders distinct).congr fun name text => ?_
    rw [Headers.shows_of_returns returns, holds.mem_iff]
  · rintro rfl
    exact absurd (free _ _ member) (by decide)
  · rintro rfl
    exact absurd (free _ _ member) (by decide)
  · have told := Trailers.holdsExactly_ofOutcome own free failure
    rw [← made] at told
    exact told
  · intro ο payloadType codec message payload encoded
    have names : ∀ name value, (name, value) ∈ metadata.trailers.toList →
        HeaderName.IsWellFormed name := by
      intro name value member
      obtain ⟨_, text, shown, _⟩ :=
        (returns.mem_iff name value).mp ((own.mem_iff name value).mpr member)
      exact (wellFormed.of_shows shown).1
    have inHead := Response.holdsExactly_withTrailers own names codec
    rw [← made] at inHead
    have written : Response.unary (.connectUnary codec) (.ok ⟨message, metadata.trailers⟩) =
        Response.ofPayload (.connectUnary codec) (.ok (payload, metadata.trailers)) :=
      Response.unary_of_encode encoded
    simp only [written]
    refine ⟨rfl, inHead.congr fun name value => or_congr Iff.rfl ?_⟩
    simp [WireFormat.isEnveloped]

/-- Headers with names of every class, one of them with two values. -/
def mixedHeaders : Headers :=
  Headers.ofList
    [("grpc-status", Bytes.ofAscii "0"), ("x-id", Bytes.ofAscii "7"),
      ("x-id", Bytes.ofAscii "8"), ("connection", Bytes.ofAscii "close"),
      ("trailer-x", Bytes.ofAscii "1"), ("x-bin", [255])]

theorem echoesApart_of_mixedHeaders :
    mixedHeaders.IsWellFormed ∧
      EchoesApart mixedHeaders (Metadata.ofHeaders mixedHeaders).reverse ∧
      (Metadata.trailers (Metadata.ofHeaders mixedHeaders).reverse).toList =
        [("x-id", Bytes.ofAscii "7")] := by
  have wellFormed : mixedHeaders.IsWellFormed := by decide
  exact ⟨wellFormed, echoesApart_of_perm wellFormed (List.reverse_perm _), by decide⟩

end RpcEcho
