import RpcEcho.Proofs.Api.Lossless
import RpcEcho.Proofs.Proto.GivenTwice

/-!
# What JSON payloads say

Reading a JSON payload depends on the message only, not on the way in which it is presented. A
payload is a text of one of the JSON forms of its message, and every text of every form is read as
the message. A text that gives something twice is refused.
-/

namespace RpcEcho.Api

open Proto

/-- Every JSON payload of a message is a text of one of its forms, and every text of every form of
the message is read as the message: with the members in any order, the keys in either spelling, what
holds its default written or left out, unknown members with anything in them, strings with any
escapes, and blanks between any two tokens. A text in which some object gives something other than
null twice for one field, or for two members of one choice, is an invalid argument. -/
theorem decode_presented (type : MessageType) :
    (∀ message, catalog.IsMessage type message →
      (∀ payload, Codec.encode .json type message = .ok payload →
        ∃ json, JsonForm.Presents catalog (.message type) (.message message) json ∧
          Json.IsPayload json payload) ∧
      ∀ json, JsonForm.Presents catalog (.message type) (.message message) json →
        ∀ octets, Json.IsPayload json octets →
          ∃ read, Codec.decode .json type octets = .ok read ∧
            Message.Agrees catalog type read message) ∧
    ∀ json, JsonForm.GivesTwice catalog type json → ∀ octets, Json.IsPayload json octets →
      ∃ status, Codec.decode .json type octets = .error status ∧
        status.code = .invalidArgument := by
  refine ⟨fun message valid => ⟨?_, ?_⟩, ?_⟩
  · exact fun payload encoded => presents_of_encode valid encoded
  · exact fun json presents octets isPayload => decode_of_presents valid presents isPayload
  · intro json givesTwice octets isPayload
    refine ⟨Codec.unreadable .json, ?_, rfl⟩
    have refused := JsonForm.toMessage?_of_givesTwice namesFind_catalog givesTwice
    obtain ⟨members, rfl⟩ := givesTwice.exists_members
    rw [Codec.decode, decode?_of_isPayload type isPayload, refused]

def delayRequest : Message := [(1, .text "hi"), (2, .int 5)]

theorem isMessage_delayRequest : catalog.IsMessage .echoWithDelayRequest delayRequest := by
  refine .message (by decide) ?_
  intro entry member field known
  rcases List.mem_cons.mp member with rfl | isLast
  · cases known
    exact .scalar trivial
  · rw [List.mem_singleton.mp isLast] at known ⊢
    cases known
    exact .scalar ⟨by decide, by decide⟩

/-- A form of the request: an unknown member, the other spelling of a key, a number as a text. -/
def delayMembers : List (Option String × Json) :=
  [(some "x", .array [.number none]), (some "delay_ms", .string (some "05")),
    (some "message", .string (some "hi"))]

theorem presents_delayMembers : JsonForm.Presents catalog (.message .echoWithDelayRequest)
    (.message delayRequest) (.object delayMembers) := by
  -- Each name is told by the field that it finds.
  have finds {field : MessageField MessageType}
      (isField : field ∈ catalog.fields .echoWithDelayRequest) {name : String}
      (isName : JsonForm.IsName field name) :
      (JsonForm.field? catalog .echoWithDelayRequest name).map Prod.snd = some field := by
    obtain ⟨slot, isSlot, inSlot⟩ := List.mem_flatMap.mp isField
    rw [namesFind_catalog _ slot isSlot field inSlot name isName]
    rfl
  have unknown : JsonForm.field? catalog .echoWithDelayRequest "x" = none := by decide
  have isDelay : (JsonForm.field? catalog .echoWithDelayRequest "delay_ms").map Prod.snd =
      some (intField 2 "delay_ms") := by decide
  have isText : (JsonForm.field? catalog .echoWithDelayRequest "message").map Prod.snd =
      some (textField 1 "message") := by decide
  refine .message ?_ ?_ ?_ ?_
  · simp [delayMembers]
  · have apart : delayMembers.Pairwise fun first second =>
        JsonForm.slotOf? catalog .echoWithDelayRequest first = none ∨
          JsonForm.slotOf? catalog .echoWithDelayRequest first ≠
            JsonForm.slotOf? catalog .echoWithDelayRequest second := by decide
    exact apart.imp (JsonForm.standApart_of_slotOf? namesFind_catalog)
  · intro field isField name json member isName
    have found := finds isField isName
    simp only [delayMembers, List.mem_cons, List.not_mem_nil, or_false, Prod.mk.injEq,
      Option.some.injEq] at member
    rcases member with ⟨rfl, rfl⟩ | ⟨rfl, rfl⟩ | ⟨rfl, rfl⟩
    · rw [unknown] at found
      cases found
    · rw [isDelay] at found
      cases found
      have isForm : Decimal.IsForm (Decimal.value ['0', '5']) "05".toList :=
        .plain (by simp) (List.all_eq_true.mp rfl)
      exact .one (Or.inl rfl) (.scalar (.decimal isForm))
    · rw [isText] at found
      cases found
      exact .one (Or.inl rfl) (.scalar .text)
  · intro field isField unnamed
    have isKnown : field = textField 1 "message" ∨ field = intField 2 "delay_ms" := by
      simpa [Catalog.fields, catalog, Slot.fields] using isField
    rcases isKnown with rfl | rfl
    · exact absurd (Or.inr rfl) (unnamed "message" (.string (some "hi")) (by simp [delayMembers]))
    · exact absurd (Or.inr rfl) (unnamed "delay_ms" (.string (some "05")) (by simp [delayMembers]))

/-- The octets of `{"x":[1e3], "delay_ms" : "05","message":"\u0068i"}` and a line end. -/
def delayText : Bytes :=
  [123, 34, 120, 34, 58, 91, 49, 101, 51, 93, 44, 32, 34, 100, 101, 108, 97, 121, 95, 109, 115, 34,
    32, 58, 32, 34, 48, 53, 34, 44, 34, 109, 101, 115, 115, 97, 103, 101, 34, 58, 34, 92, 117, 48,
    48, 54, 56, 105, 34, 125, 10]

theorem isPayload_delayText : Json.IsPayload (.object delayMembers) delayText := by
  have none : Json.AreBlanks [] := by decide
  have space : Json.AreBlanks [32] := by decide
  have lineEnd : Json.AreBlanks [10] := by decide
  have one : Json.AreDigits [49] := ⟨by simp, List.all_eq_true.mp rfl⟩
  have three : Json.AreDigits [51] := ⟨by simp, List.all_eq_true.mp rfl⟩
  have thousand : Json.IsNumeral Option.none ([] ++ ([49] ++ ([] ++ 101 :: ([] ++ [51])))) :=
    .other (Or.inl rfl) ⟨one, by decide⟩ .absent (.mark (Or.inl rfl) (Or.inl rfl) three)
      (Or.inr (Or.inl (by simp)))
  have unknown := Json.IsMember.colon none (Json.isQuoted_quotedText "x") none
    (.between none (.array (.last (.between none (.number thousand) none))) none)
  have delay := Json.IsMember.colon space (Json.isQuoted_quotedText "delay_ms") space
    (.between space (.string (Json.isQuoted_quotedText "05")) none)
  have zero : Json.IsHexDigit 0 48 := ⟨by decide, Or.inl rfl⟩
  have six : Json.IsHexDigit 6 54 := ⟨by decide, Or.inl rfl⟩
  have eight : Json.IsHexDigit 8 56 := ⟨by decide, Or.inl rfl⟩
  have letter : Json.IsCharacter 'h' (Json.unitEscape [48, 48, 54, 56]) :=
    .unit (.digits zero zero six eight)
  have plain : Json.IsCharacter 'i' [105] := .plain (by decide) (by decide) (by decide)
  have hi : Json.IsQuoted (some "hi") _ := .quotes (.character letter (.character plain .nil)) rfl
  have message := Json.IsMember.colon none (Json.isQuoted_quotedText "message") none
    (.between none (.string hi) none)
  exact .between none (.object (.more unknown (.more delay (.last message)))) lineEnd

/-- Both spellings of one name. -/
def twiceGiven : Json :=
  .object [(some "delayMs", .number (some 1)), (some "delay_ms", .number (some 2))]

theorem givesTwice_twiceGiven : JsonForm.GivesTwice catalog .echoWithDelayRequest twiceGiven := by
  have isSlot : Slot.single (intField 2 "delay_ms") ∈ catalog .echoWithDelayRequest := by decide
  have names (name : String) (isName : JsonForm.IsName (intField 2 "delay_ms") name) (json : Json) :
      JsonForm.NamesSlot (.single (intField 2 "delay_ms")) (some name, json) :=
    ⟨_, List.mem_singleton_self _, name, rfl, isName⟩
  have twice : JsonForm.GivesTwice catalog .echoWithDelayRequest
      (.object ([] ++ (some "delayMs", .number (some 1)) ::
        ([] ++ (some "delay_ms", .number (some 2)) :: []))) :=
    .here isSlot (names "delayMs" (Or.inl (by decide)) _) (names "delay_ms" (Or.inr rfl) _)
      (by simp) (by simp)
  exact twice

theorem isExact_twiceGiven : twiceGiven.IsExact :=
  ⟨⟨_, rfl⟩, ⟨1, rfl, by decide⟩, ⟨_, rfl⟩, ⟨2, rfl, by decide⟩, trivial⟩

theorem decode_presented_delayText :
    (∃ payload json, Codec.encode .json .echoWithDelayRequest delayRequest = .ok payload ∧
      JsonForm.Presents catalog (.message .echoWithDelayRequest) (.message delayRequest) json ∧
        Json.IsPayload json payload) ∧
    (∃ read, Codec.decode .json .echoWithDelayRequest delayText = .ok read ∧
      Message.Agrees catalog .echoWithDelayRequest read delayRequest) ∧
    ∃ status, Codec.decode .json .echoWithDelayRequest twiceGiven.encode = .error status ∧
      status.code = .invalidArgument := by
  obtain ⟨forMessages, twice⟩ := decode_presented .echoWithDelayRequest
  obtain ⟨writes, reads⟩ := forMessages delayRequest isMessage_delayRequest
  obtain ⟨json, presents, isPayload⟩ := writes _ rfl
  exact ⟨⟨_, json, rfl, presents, isPayload⟩,
    reads _ presents_delayMembers delayText isPayload_delayText,
    twice _ givesTwice_twiceGiven _ (Json.isPayload_encode isExact_twiceGiven)⟩

end RpcEcho.Api
