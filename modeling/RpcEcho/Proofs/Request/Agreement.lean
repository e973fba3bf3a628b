import RpcEcho.Call.Transcript
import RpcEcho.Proofs.Request.Single

/-!
# The two readers of single messages

A request of a unary call is the whole body in one format, and the only envelope of it in the
others. There are two readers with two bounds on the length, and `readSingle_agrees` says that they
tell the same of the same payload, and when an enveloped body holds exactly one message: the
results of `Inbound.parse`, which reads all octets of the body at once, are that message and the
end.
-/

namespace RpcEcho

open Inbound RequestBody

variable {ι : Type} [Payload ι]

/-! ## The words of a failure -/

/-- The first character of what a status says. -/
def Status.initial? (status : Status) : Option Char :=
  status.message.bind fun text => text.toList.head?

/-- What begins with a character still does with more behind it. -/
theorem head?_append_of_head? {text : String} {initial : Char}
    (begins : text.toList.head? = some initial) (rest : String) :
    (text ++ rest).toList.head? = some initial := by
  rw [String.toList_append, List.head?_append, begins]
  rfl

theorem Envelope.Error.head?_message (error : Envelope.Error) :
    ∃ initial, error.message.toList.head? = some initial ∧ initial ≠ 'u' := by
  cases error with
  | incompleteHeader actual =>
      have begins : "incomplete envelope header: expected ".toList.head? = some 'i' := rfl
      refine ⟨'i', ?_, by decide⟩
      exact head?_append_of_head? (head?_append_of_head? (head?_append_of_head? begins _) _) _
  | incompletePayload expected actual =>
      have begins : "incomplete envelope: expected ".toList.head? = some 'i' := rfl
      refine ⟨'i', ?_, by decide⟩
      exact head?_append_of_head? (head?_append_of_head? (head?_append_of_head? begins _) _) _
  | invalidFlags flags =>
      have begins : "invalid frame flags: 0x".toList.head? = some 'i' := rfl
      exact ⟨'i', head?_append_of_head? begins _, by decide⟩
  | compressed => exact ⟨'c', rfl, by decide⟩
  | messageTooLarge size limit =>
      have begins : "message size ".toList.head? = some 'm' := rfl
      refine ⟨'m', ?_, by decide⟩
      exact head?_append_of_head? (head?_append_of_head? (head?_append_of_head? begins _) _) _

theorem initial?_error (code : Code) (error : Envelope.Error) :
    (Status.of code error.message).initial? ≠ some 'u' := by
  obtain ⟨initial, begins, different⟩ := error.head?_message
  change error.message.toList.head? ≠ _
  rw [begins]
  exact fun same => different (Option.some.inj same)

namespace Inbound

omit [Payload ι] in
theorem initial?_endingWith {ending : BodyEnding} {error? : Option Envelope.Error}
    {status : Status} (given : endingWith ending error? = (.error status : Result ι)) :
    status.initial? ≠ some 'u' := by
  unfold endingWith at given
  split at given
  · rename_i _ reason
    cases given
    have begins : "failed to read request body: ".toList.head? = some 'f' := rfl
    change ("failed to read request body: " ++ reason).toList.head? ≠ _
    rw [head?_append_of_head? begins]
    decide
  · cases given
    exact initial?_error _ _
  · cases given

theorem initial?_content {codec : Codec} {flags : Flags} {payload : Bytes} {status : Status}
    (given : content codec flags payload = (.error status : Result ι)) :
    status.initial? ≠ some 'u' := by
  unfold content at given
  split at given
  · cases given
  · split at given
    · cases given
      exact initial?_error _ _
    · split at given
      · cases given
        exact initial?_error _ _
      · split at given
        · cases given
        · cases given
          cases codec <;> decide

/-- No failure of a body says anything about the number of its messages. -/
theorem initial?_of_first {codec : Codec} {ending : BodyEnding} {octets : Bytes} {status : Status}
    (found : (first codec ending octets : Result ι × Bytes).1 = .error status) :
    status.initial? ≠ some 'u' := by
  unfold first at found
  split at found
  · split at found
    · exact initial?_endingWith found
    · exact initial?_endingWith found
  · split at found
    · cases found
      exact initial?_error _ _
    · split at found
      · exact initial?_endingWith found
      · exact initial?_content found

theorem initial?_of_parse {codec : Codec} {ending : BodyEnding} {octets : Bytes} {status : Status}
    (member : (.error status : Result ι) ∈ parse codec ending octets) :
    status.initial? ≠ some 'u' := by
  fun_induction parse (ι := ι) codec ending octets with
  | case1 octets silence => cases member
  | case2 octets heard message after found inductionHypothesis =>
      rcases List.mem_cons.mp member with same | later
      · cases same
      · exact inductionHypothesis later
  | case3 octets heard result after isOther found =>
      obtain rfl := List.mem_singleton.mp member
      exact initial?_of_first (congrArg Prod.fst found)

end Inbound

theorem Exchange.initial?_noMessage : noMessage.initial? = some 'u' := rfl

theorem Exchange.initial?_manyMessages : manyMessages.initial? = some 'u' := rfl

/-! ## The only message -/

namespace Inbound

/-- What the result behind a message makes of it: it is the only one if the end follows. -/
def behind (message : ι) : Result ι → Except Status ι
  | .ok none => .ok message
  | .ok (some _) => .error Exchange.manyMessages
  | .error status => .error status

/-- What the results that a body gives say about its only message; nothing if they stop before that
can be told. -/
def onlyOf : List (Result ι) → Option (Except Status ι)
  | [] => none
  | .ok none :: _ => some (.error Exchange.noMessage)
  | .error status :: _ => some (.error status)
  | .ok (some message) :: results => results.head?.map (behind message)

end Inbound

namespace Exchange

/-- A call at the start of its body: it is open until all of it came, and nothing ends the call if
the body falls silent then. -/
structure Awaits (exchange : Exchange) (body : RequestBody) : Prop where
  fresh : exchange.inbound = Inbound.ofBody body
  isOpen : exchange.IsOpenAt (exchange.now + waits body.parts)
  lasts : body.ending = .silent → exchange.cancellation = .never

variable {exchange : Exchange} {ending : BodyEnding} {octets : Bytes}

/-- Asking once gives the first result of the parse. -/
theorem Gets.head? {outcome : Exchange × Option (Result ι)}
    (gets : Gets exchange ending octets outcome) :
    outcome.2 = (parse exchange.wire.codec ending octets : List (Result ι)).head? := by
  cases gets with
  | never silence _ _ => rw [parse_of_silence silence]; rfl
  | message heard found _ _ => rw [parse_of_message heard found]; rfl
  | last heard found isLast _ _ => rw [parse_of_last heard found isLast]; rfl

theorem readOnly_of_message {between : Exchange} {message : ι}
    (given : exchange.receive = (between, some (.ok (some message)))) :
    exchange.readOnly.2 =
      (between.receive : Exchange × Option (Result ι)).2.map (behind message) := by
  rw [readOnly, given]
  dsimp only
  split <;> rename_i outcome <;> rw [outcome] <;> rfl

/-- The reader of enveloped bodies tells what all results of a body say. -/
theorem readOnly_eq_onlyOf {body : RequestBody} (awaits : exchange.Awaits body) :
    exchange.readOnly.2 =
      onlyOf (parse exchange.wire.codec body.ending body.octets : List (Result ι)) := by
  obtain ⟨fresh, isOpen, lasts⟩ := awaits
  have state : exchange.inbound = midway body.parts body.ending [] := fresh
  have asks := gets_receive (ι := ι) state isOpen fun silence => lasts silence.1
  rw [List.nil_append] at asks
  change Gets exchange body.ending body.octets _ at asks
  generalize asked : (exchange.receive : Exchange × Option (Result ι)) = outcome at asks
  cases asks with
  | never silence _ _ =>
      rw [readOnly, asked, parse_of_silence silence]
      rfl
  | @last _ _ _ result heard found isLast _ _ =>
      rw [readOnly, asked, parse_of_last heard found isLast]
      rcases result with status | _ | message
      · rfl
      · rfl
      · exact absurd rfl (isLast message)
  | @message now outbound parts held message heard found goesOn isOpenThen =>
      have stays := isOpen.stays.goesOn goesOn
      have stateThen : ({ exchange with now, inbound := midway parts body.ending held, outbound } :
          Exchange).inbound = midway parts body.ending held := rfl
      have asksAgain := gets_receive (ι := ι) stateThen ⟨isOpenThen, stays⟩ fun silence =>
        lasts silence.1
      rw [readOnly_of_message asked, parse_of_message heard found, onlyOf, asksAgain.head?]

/-- What a reader says of the only message of a body, by all results that the body gives. -/
structure ReadsOnly (read : Option (Except Status ι)) (results : List (Result ι)) : Prop where
  /-- It is read if the end of the body follows. -/
  message : ∀ message, read = some (.ok message) ↔ results = [.ok (some message), .ok none]
  zero : read = some (.error noMessage) ↔ results = [.ok none]
  many : read = some (.error manyMessages) ↔
    ∃ first second rest, results = .ok (some first) :: .ok (some second) :: rest
  /-- Every other failure is the one that the body gives. -/
  failure : ∀ status, status ≠ noMessage → status ≠ manyMessages →
    (read = some (.error status) ↔
      results = [.error status] ∨ ∃ first, results = [.ok (some first), .error status])
  /-- Nothing is said only of a body that falls silent. -/
  never : read = none ↔ results = [] ∨ ∃ first, results = [.ok (some first)]

theorem ne_of_mem_parse {codec : Codec} {status : Status}
    (member : (.error status : Result ι) ∈ parse codec ending octets) :
    status ≠ noMessage ∧ status ≠ manyMessages := by
  have different := initial?_of_parse member
  constructor
  · rintro rfl
    exact different initial?_noMessage
  · rintro rfl
    exact different initial?_manyMessages

theorem noMessage_ne_manyMessages : noMessage ≠ manyMessages := by decide

omit [Payload ι] in
/-- Of one result that is no message, the reader says what it says. -/
theorem readsOnly_of_last {result : Result ι} (isLast : ∀ message, result ≠ .ok (some message))
    (own : ∀ status, result = .error status → status ≠ noMessage ∧ status ≠ manyMessages) :
    ReadsOnly (onlyOf [result]) [result] := by
  match result, isLast with
  | .ok none, _ =>
      have differ := noMessage_ne_manyMessages
      constructor <;> grind [onlyOf]
  | .error status, _ =>
      obtain ⟨notZero, notMany⟩ := own status rfl
      constructor <;> grind [onlyOf]
  | .ok (some message), isLast => exact absurd rfl (isLast message)

omit [Payload ι] in
/-- Of a message and one more result that is none, the reader says what follows from both. -/
theorem readsOnly_of_message {message : ι} {result : Result ι}
    (isLast : ∀ message, result ≠ .ok (some message))
    (own : ∀ status, result = .error status → status ≠ noMessage ∧ status ≠ manyMessages) :
    ReadsOnly (onlyOf [.ok (some message), result]) [.ok (some message), result] := by
  match result, isLast with
  | .ok none, _ => constructor <;> grind [onlyOf, Inbound.behind]
  | .error status, _ =>
      obtain ⟨notZero, notMany⟩ := own status rfl
      constructor <;> grind [onlyOf, Inbound.behind]
  | .ok (some message), isLast => exact absurd rfl (isLast message)

omit [Payload ι] in
theorem readsOnly_of_messages (first second : ι) (rest : List (Result ι)) :
    ReadsOnly (onlyOf (.ok (some first) :: .ok (some second) :: rest))
      (.ok (some first) :: .ok (some second) :: rest) := by
  have differ := noMessage_ne_manyMessages
  constructor <;> grind [onlyOf, Inbound.behind]

theorem readsOnly_onlyOf (codec : Codec) (ending : BodyEnding) (octets : Bytes) :
    ReadsOnly (onlyOf (parse codec ending octets))
      (parse codec ending octets : List (Result ι)) := by
  have own (status : Status) := @ne_of_mem_parse ι _ ending octets codec status
  rcases parse_cases (ι := ι) codec ending octets with
    ⟨_, parsed⟩ | ⟨_, ⟨first, after, _, parsed⟩ | ⟨result, isLast, _, parsed⟩⟩
  · rw [parsed]
    constructor <;> simp [onlyOf]
  · rcases parse_cases (ι := ι) codec ending after with
      ⟨_, parsedThen⟩ | ⟨_, ⟨second, behind, _, parsedThen⟩ | ⟨result, isLast, _, parsedThen⟩⟩
    · rw [parsed, parsedThen]
      constructor <;> simp [onlyOf]
    · rw [parsed, parsedThen]
      exact readsOnly_of_messages first second _
    · rw [parsed, parsedThen] at own ⊢
      exact readsOnly_of_message isLast fun status same => own status (by simp [same])
  · rw [parsed] at own ⊢
    exact readsOnly_of_last isLast fun status same => own status (by simp [same])

/-- Asking again and again gives all results of the parse. -/
theorem receives_eq_parse {exchange : Exchange} {parts : List BodyPart} {held : Bytes}
    (state : exchange.inbound = midway parts ending held)
    (isOpen : exchange.IsOpenAt (exchange.now + waits parts))
    (lasts : ending = .silent → exchange.cancellation = .never) :
    let results : List (Result ι) :=
      parse exchange.wire.codec ending (held ++ parts.flatMap octetsOf)
    receives results.length exchange = results := by
  intro results
  generalize isParse : results = list
  induction list generalizing exchange parts held with
  | nil => rfl
  | cons result list inductionHypothesis =>
      change parse exchange.wire.codec ending _ = _ at isParse
      have asks := gets_receive (ι := ι) state isOpen fun silence => lasts silence.1
      generalize asked : (exchange.receive : Exchange × Option (Result ι)) = outcome at asks
      rw [List.length_cons, receives, asked]
      cases asks with
      | never silence _ _ =>
          rw [parse_of_silence silence] at isParse
          cases isParse
      | last heard found isLast _ _ =>
          rw [parse_of_last heard found isLast] at isParse
          cases isParse
          rfl
      | @message now outbound later behind message heard found goesOn isOpenThen =>
          rw [parse_of_message heard found] at isParse
          cases isParse
          have stateThen : ({ exchange with now, inbound := midway later ending behind, outbound } :
              Exchange).inbound = midway later ending behind := rfl
          exact congrArg _
            (inductionHypothesis stateThen ⟨isOpenThen, isOpen.stays.goesOn goesOn⟩ lasts rfl)

/-! ## Both readers -/

/-- A call at the start of a body that holds one payload in the format of the call. -/
def AwaitsPayload (exchange : Exchange) (payload : Bytes) : Prop :=
  ∃ body, exchange.Awaits body ∧ body.ending = .complete ∧
    body.octets = exchange.wire.single payload

/-- What a reader makes of a payload that is not too long, and its failure if it is. -/
def readOr (tooLong : Status) (codec : Codec) (payload : Bytes) : Except Status ι :=
  if Envelope.maxPayload < payload.length then .error tooLong else Payload.decode codec payload

theorem readSingle_of_raw {exchange : Exchange} {payload : Bytes}
    (isRaw : exchange.wire.isEnveloped = false) (awaits : exchange.AwaitsPayload payload) :
    (exchange.readSingle : Exchange × Option (Except Status ι)).2 =
      some (readOr tooLong exchange.wire.codec payload) := by
  obtain ⟨body, awaits, complete, whole⟩ := awaits
  rw [WireFormat.single, isRaw, if_neg Bool.false_ne_true] at whole
  obtain ⟨after, outcome⟩ := readBody_of_open (ι := ι) awaits.fresh complete awaits.isOpen
  rw [readSingle, isRaw, if_neg Bool.false_ne_true, outcome, whole]
  rfl

theorem readSingle_of_enveloped {exchange : Exchange} {payload : Bytes}
    (isEnveloped : exchange.wire.isEnveloped = true) (bound : payload.length < Bytes.wordBound)
    (awaits : exchange.AwaitsPayload payload) :
    (exchange.readSingle : Exchange × Option (Except Status ι)).2 =
      some (readOr (Envelope.Error.messageTooLarge payload.length Envelope.maxPayload).status
        exchange.wire.codec payload) := by
  obtain ⟨body, awaits, complete, whole⟩ := awaits
  rw [WireFormat.single, if_pos isEnveloped] at whole
  have found := first_of_wrap (ι := ι) bound exchange.wire.codec .complete []
  rw [List.append_nil] at found
  have heard (octets : Bytes) : ¬ IsSilence .complete octets := fun silence => by cases silence.1
  rw [readSingle, if_pos isEnveloped, readOnly_eq_onlyOf awaits, complete, whole, readOr]
  split at found
  case isTrue tooMuch =>
    have isLast := parse_of_last (heard _) (congrArg Prod.fst found) fun _ same => by cases same
    rw [if_pos tooMuch, isLast]
    rfl
  case isFalse fits =>
    rw [if_neg fits]
    cases decoded : (Payload.decode exchange.wire.codec payload : Except Status ι) with
    | error status =>
        rw [decoded] at found
        rw [parse_of_last (heard _) (congrArg Prod.fst found) fun _ same => by cases same]
        rfl
    | ok message =>
        have atEnd : (parse exchange.wire.codec .complete [] : List (Result ι)) = [.ok none] :=
          parse_of_last (heard _) rfl fun _ same => by cases same
        rw [decoded] at found
        rw [parse_of_message (heard _) found, atEnd]
        rfl

theorem eq_unreadable_of_decode {codec : Codec} {payload : Bytes} {status : Status}
    (failed : (Payload.decode codec payload : Except Status ι) = .error status) :
    status = codec.unreadable := by
  unfold Payload.decode Codec.decode at failed
  cases found : codec.decode? (Payload.type ι) payload with
  | none =>
      rw [found] at failed
      exact (Except.error.inj failed).symm
  | some message =>
      rw [found] at failed
      cases failed

/-- Only what is too long exhausts the resources of a reader. -/
theorem mapError_readOr {tooLong : Status} (isExhausted : tooLong.code = .resourceExhausted)
    (codec : Codec) (payload : Bytes) :
    (readOr tooLong codec payload : Except Status ι).mapError Status.code =
        .error .resourceExhausted ↔
      Envelope.maxPayload < payload.length := by
  unfold readOr
  split
  case isTrue tooMuch => exact iff_of_true (congrArg Except.error isExhausted) tooMuch
  case isFalse fits =>
    refine ⟨fun exhausted => ?_, fun tooMuch => absurd tooMuch fits⟩
    cases decoded : (Payload.decode codec payload : Except Status ι) with
    | ok message =>
        rw [decoded] at exhausted
        cases exhausted
    | error status =>
        rw [decoded, eq_unreadable_of_decode decoded] at exhausted
        cases codec <;> cases exhausted

theorem mapError_readOr_congr {first second : Status} (sameCode : first.code = second.code)
    (codec : Codec) (payload : Bytes) :
    (readOr first codec payload : Except Status ι).mapError Status.code =
      (readOr second codec payload).mapError Status.code := by
  unfold readOr
  split
  · exact congrArg Except.error sameCode
  · rfl

/-- The readers of raw and of enveloped bodies tell the same message of a payload, or fail with the
same code, and only what is longer than the bound exhausts them. Of every enveloped body, the
second one reads the only message that the body gives, where asking again and again gives all that
the parse of its octets does; of a body that does not fall silent, this is what the reference reads
off the octets. -/
theorem readSingle_agrees :
    (∀ (payload : Bytes) (raw enveloped : Exchange), payload.length < Bytes.wordBound →
      raw.wire.isEnveloped = false → enveloped.wire.isEnveloped = true →
      raw.wire.codec = enveloped.wire.codec →
      raw.AwaitsPayload payload → enveloped.AwaitsPayload payload →
      ∃ one other : Except Status ι, raw.readSingle.2 = some one ∧
        enveloped.readSingle.2 = some other ∧
        one.mapError Status.code = other.mapError Status.code ∧
        (one.mapError Status.code = .error .resourceExhausted ↔ 4194304 < payload.length)) ∧
      ∀ (exchange : Exchange) (body : RequestBody), exchange.wire.isEnveloped = true →
        exchange.Awaits body →
        let results : List (Result ι) :=
          parse exchange.wire.codec body.ending body.octets
        receives results.length exchange = results ∧
          (body.ending ≠ .silent →
            results = reference exchange.wire.codec body.ending body.octets) ∧
          ReadsOnly exchange.readSingle.2 results := by
  constructor
  · intro payload raw enveloped bound isRaw isEnveloped sameCodec awaitsRaw awaitsEnveloped
    refine ⟨_, _, readSingle_of_raw isRaw awaitsRaw,
      readSingle_of_enveloped isEnveloped bound awaitsEnveloped, ?_, mapError_readOr rfl _ _⟩
    have sameCode : tooLong.code =
        (Envelope.Error.messageTooLarge payload.length Envelope.maxPayload).status.code := rfl
    rw [sameCodec]
    exact mapError_readOr_congr sameCode _ _
  · intro exchange body isEnveloped awaits results
    have state : exchange.inbound = midway body.parts body.ending [] := awaits.fresh
    refine ⟨receives_eq_parse state awaits.isOpen awaits.lasts, parse_eq_reference, ?_⟩
    rw [readSingle, if_pos isEnveloped, readOnly_eq_onlyOf awaits]
    exact readsOnly_onlyOf _ _ _

/-- A call that nothing ends is open until its body came. -/
theorem awaits_startApart {call : Call} (endless : call.deadline = none) :
    call.startApart.Awaits call.body where
  fresh := rfl
  isOpen := by
    refine ⟨?_, Outbound.stays_unheard⟩
    change Cancellation.check ⟨none, call.deadline⟩ _ = none
    rw [endless]
    rfl
  lasts := fun _ => by
    change Cancellation.mk none call.deadline = .never
    rw [endless]
    rfl

/-- The octets of a request with the text "hi". -/
def hiPayload : Bytes := [10, 2, 104, 105]

/-- A call whose body is a message, which comes in three parts. -/
def rawHiCall : Call where
  wire := .connectUnary .proto
  headers := Headers.empty
  body := ⟨[.data [10] 1, .data [2, 104] 0, .data [105] 2], .complete⟩
  drainAt := none

/-- A call with the same message in an envelope, which is cut in its header and in the message. -/
def envelopedHiCall : Call where
  wire := .grpc .proto
  headers := Headers.empty
  body := ⟨[.data [0, 0] 3, .data [0, 0, 4, 10] 0, .data [2, 104, 105] 5], .complete⟩
  drainAt := none

theorem readSingle_agrees_of_hi :
    (rawHiCall.startApart.AwaitsPayload hiPayload ∧
      envelopedHiCall.startApart.AwaitsPayload hiPayload ∧
      ∃ one other : Except Status Api.EchoRequest,
        rawHiCall.startApart.readSingle.2 = some one ∧
        envelopedHiCall.startApart.readSingle.2 = some other ∧
        one.mapError Status.code = other.mapError Status.code ∧
        (one.mapError Status.code = .error .resourceExhausted ↔ 4194304 < 4)) ∧
      rawHiCall.startApart.readSingle.2 = some (.ok (⟨"hi"⟩ : Api.EchoRequest)) ∧
      envelopedHiCall.startApart.Awaits envelopedHiCall.body ∧
      let results : List (Result Api.EchoRequest) :=
        parse .proto .complete (Envelope.wrap hiPayload Flags.message)
      results = [.ok (some ⟨"hi"⟩), .ok none] ∧
        receives results.length envelopedHiCall.startApart = results ∧
        results = reference .proto .complete (Envelope.wrap hiPayload Flags.message) ∧
        ReadsOnly envelopedHiCall.startApart.readSingle.2 results := by
  have agrees := readSingle_agrees (ι := Api.EchoRequest)
  have awaits : rawHiCall.startApart.Awaits rawHiCall.body := awaits_startApart rfl
  have awaitsEnveloped : envelopedHiCall.startApart.Awaits envelopedHiCall.body :=
    awaits_startApart rfl
  have raw : rawHiCall.startApart.AwaitsPayload hiPayload := ⟨_, awaits, rfl, rfl⟩
  have enveloped : envelopedHiCall.startApart.AwaitsPayload hiPayload :=
    ⟨_, awaitsEnveloped, rfl, rfl⟩
  have bound : hiPayload.length < Bytes.wordBound := by decide
  have reads (tooLong : Status) : readOr tooLong .proto hiPayload =
      .ok (⟨"hi"⟩ : Api.EchoRequest) := by
    have decoded : Payload.decode .proto hiPayload = .ok (⟨"hi"⟩ : Api.EchoRequest) := by
      decide +kernel
    rw [readOr, if_neg (by decide), decoded]
  obtain ⟨asked, isReference, only⟩ :=
    agrees.2 envelopedHiCall.startApart _ rfl awaitsEnveloped
  refine ⟨⟨raw, enveloped, agrees.1 hiPayload _ _ bound rfl rfl rfl raw enveloped⟩, ?_,
    awaitsEnveloped, ?_, asked, isReference (by decide), only⟩
  · exact (readSingle_of_raw rfl raw).trans (congrArg some (reads _))
  · exact (only.message ⟨"hi"⟩).mp
      ((readSingle_of_enveloped rfl bound enveloped).trans (congrArg some (reads _)))

end Exchange

end RpcEcho
