import RpcEcho.Api.Message
import RpcEcho.Proofs.Call.Waiting
import RpcEcho.Proofs.Request.Asking

/-!
# Streams of incoming messages

A call reads while the parts of its body come, and asks for one message after the other.
`receives_eq_reference` says that it gets what the reference reads off all octets at once, for every
way in which the octets are cut into parts and spread over time, as long as the call is open until
the body has come.

One call is `receive_of_ask`: while it is open, it gets what asking gives without regard to time.
-/

namespace RpcEcho

namespace RequestBody

/-- The milliseconds before a part comes to somebody who waits for it. -/
def waitOf : BodyPart → Nat
  | .data _ wait => wait
  | .trailers _ => 0

/-- The milliseconds before parts have come to somebody who always waits for the next. -/
def waits : List BodyPart → Nat
  | [] => 0
  | part :: parts => waitOf part + waits parts

end RequestBody

namespace Exchange

open Inbound RequestBody

variable {ι : Type} [Payload ι]

/-! ## Waiting for parts -/

theorem nextPartAt_cons {exchange : Exchange} {part : BodyPart} {parts : List BodyPart}
    (state : exchange.inbound.body.parts = part :: parts) :
    exchange.nextPartAt = some (exchange.now + waitOf part) := by
  rw [nextPartAt, state]
  cases part <;> rfl


/-- While the call is open, the next part comes after its wait. -/
theorem race_nextPartAt_cons {exchange : Exchange} {part : BodyPart} {parts : List BodyPart}
    (state : exchange.inbound.body.parts = part :: parts)
    (isOpen : exchange.IsOpenAt (exchange.now + waits (part :: parts))) :
    ∃ outbound, exchange.outbound.GoesOn outbound ∧
      exchange.race exchange.nextPartAt =
        ({ exchange with now := exchange.now + waitOf part, outbound }, some (.ok ())) := by
  have whole : waits (part :: parts) = waitOf part + waits parts := rfl
  have later : max exchange.now (exchange.now + waitOf part) = exchange.now + waitOf part :=
    Nat.max_eq_right (Nat.le_add_right _ _)
  rw [whole, ← Nat.add_assoc] at isOpen
  have openThen := isOpen.mono (Nat.le_add_right (exchange.now + waitOf part) (waits parts))
  rw [← later] at openThen
  rw [nextPartAt_cons state]
  obtain ⟨outbound, goesOn, raced⟩ := race_of_open openThen
  rw [later] at raced
  exact ⟨outbound, goesOn, raced⟩

theorem race_nextPartAt_nil {exchange : Exchange} {ending : BodyEnding}
    (state : exchange.inbound.body = ⟨[], ending⟩) (ends : ending ≠ .silent)
    (isOpen : exchange.IsOpenAt exchange.now) :
    ∃ outbound, exchange.outbound.GoesOn outbound ∧
      exchange.race exchange.nextPartAt = ({ exchange with outbound }, some (.ok ())) := by
  have comesNow : exchange.nextPartAt = some exchange.now := by
    rw [nextPartAt, state]
    cases ending with
    | silent => exact absurd rfl ends
    | complete => rfl
    | broken reason => rfl
  rw [← Nat.max_self exchange.now] at isOpen
  obtain ⟨outbound, goesOn, raced⟩ := race_of_open isOpen
  rw [Nat.max_self] at raced
  exact ⟨outbound, goesOn, comesNow ▸ raced⟩

/-! ## Asking once -/

theorem receiveFrom_of_buffered {exchange : Exchange} {result : Result ι} {inbound : Inbound}
    (buffered : exchange.inbound.buffered? exchange.wire.codec = some (result, inbound))
    (parts : List BodyPart) :
    exchange.receiveFrom parts = ({ exchange with inbound }, some result) := by
  unfold receiveFrom
  simp only [buffered]

theorem receiveFrom_cons_of_waiting {exchange after : Exchange}
    (waiting : exchange.inbound.buffered? exchange.wire.codec =
      (none : Option (Result ι × Inbound)))
    (raced : exchange.race exchange.nextPartAt = (after, some (.ok ()))) (part : BodyPart)
    (parts : List BodyPart) :
    (exchange.receiveFrom (part :: parts) : Exchange × Option (Result ι)) =
      (after.takePart part parts).receiveFrom parts := by
  rw [receiveFrom]
  simp only [waiting, raced]

theorem receiveFrom_nil_of_waiting {exchange after : Exchange}
    (waiting : exchange.inbound.buffered? exchange.wire.codec =
      (none : Option (Result ι × Inbound)))
    (raced : exchange.race exchange.nextPartAt = (after, some (.ok ()))) :
    exchange.receiveFrom [] = (after.meetEnd, some (after.inbound.atEnd : Result ι)) := by
  rw [receiveFrom]
  simp only [waiting, raced]

/-- A call that is open until its body came is given what asking gives. Behind that the time of the
call has gone on by the waits of the parts that came, and its caller has acted. -/
theorem receiveFrom_of_askFrom {exchange : Exchange} {parts : List BodyPart} {result : Result ι}
    {inbound : Inbound} (state : exchange.inbound.body.parts = parts)
    (isOpen : exchange.IsOpenAt (exchange.now + waits parts))
    (asked : exchange.inbound.askFrom exchange.wire.codec parts = some (result, inbound)) :
    ∃ now outbound, exchange.receiveFrom parts =
        ({ exchange with now, inbound, outbound }, some result) ∧
      exchange.outbound.GoesOn outbound ∧
      now + waits inbound.body.parts = exchange.now + waits parts := by
  induction parts generalizing exchange with
  | nil =>
      cases buffered : (exchange.inbound.buffered? exchange.wire.codec :
          Option (Result ι × Inbound)) with
      | some given =>
          rw [askFrom, buffered] at asked
          cases asked
          refine ⟨exchange.now, exchange.outbound, receiveFrom_of_buffered buffered [], .refl, ?_⟩
          rw [body_of_buffered buffered, state]
      | none =>
          rw [askFrom, buffered] at asked
          dsimp only at asked
          split at asked
          case isTrue => cases asked
          case isFalse ends =>
            cases asked
            obtain ⟨outbound, goesOn, raced⟩ := race_nextPartAt_nil
              (show exchange.inbound.body = ⟨[], exchange.inbound.body.ending⟩ by rw [← state])
              ends isOpen
            refine ⟨exchange.now, outbound, receiveFrom_nil_of_waiting buffered raced, goesOn, ?_⟩
            rw [← state]
  | cons part parts inductionHypothesis =>
      cases buffered : (exchange.inbound.buffered? exchange.wire.codec :
          Option (Result ι × Inbound)) with
      | some given =>
          rw [askFrom, buffered] at asked
          cases asked
          refine ⟨exchange.now, exchange.outbound, receiveFrom_of_buffered buffered _, .refl, ?_⟩
          rw [body_of_buffered buffered, state]
      | none =>
          rw [askFrom, buffered] at asked
          obtain ⟨between, goesOn, raced⟩ := race_nextPartAt_cons state isOpen
          rw [receiveFrom_cons_of_waiting buffered raced]
          have whole : exchange.now + waitOf part + waits parts =
              exchange.now + waits (part :: parts) := Nat.add_assoc _ _ _
          obtain ⟨now, outbound, gives, goesOnThen, time⟩ := @inductionHypothesis
            (takePart { exchange with now := exchange.now + waitOf part, outbound := between }
              part parts)
            rfl ⟨whole ▸ isOpen.check, isOpen.stays.goesOn goesOn⟩ asked
          exact ⟨now, outbound, gives, goesOn.trans goesOnThen, time.trans whole⟩

theorem receive_of_ask {exchange : Exchange} {result : Result ι} {inbound : Inbound}
    (isOpen : exchange.IsOpenAt (exchange.now + waits exchange.inbound.body.parts))
    (asked : exchange.inbound.ask exchange.wire.codec = some (result, inbound)) :
    ∃ now outbound, exchange.receive = ({ exchange with now, inbound, outbound }, some result) ∧
      exchange.outbound.GoesOn outbound ∧
      now + waits inbound.body.parts = exchange.now + waits exchange.inbound.body.parts :=
  receiveFrom_of_askFrom rfl isOpen asked

/-- A call that nothing ends waits for ever if asking gives nothing. -/
theorem receiveFrom_of_silence {exchange : Exchange} {parts : List BodyPart}
    (state : exchange.inbound.body.parts = parts) (unending : exchange.cancellation = .never)
    (stays : exchange.outbound.Stays)
    (asked : exchange.inbound.askFrom exchange.wire.codec parts =
      (none : Option (Result ι × Inbound))) :
    ∃ after outbound, (exchange.receiveFrom parts : Exchange × Option (Result ι)) = (after, none) ∧
      exchange.outbound.GoesOn outbound ∧ after.outbound = outbound.advance none := by
  induction parts generalizing exchange with
  | nil =>
      cases buffered : (exchange.inbound.buffered? exchange.wire.codec :
          Option (Result ι × Inbound)) with
      | some given =>
          rw [askFrom, buffered] at asked
          cases asked
      | none =>
          rw [askFrom, buffered] at asked
          dsimp only at asked
          split at asked
          case isFalse => cases asked
          case isTrue silent =>
            have never : exchange.nextPartAt = none := by
              rw [nextPartAt, state, silent]
            refine ⟨{ exchange with outbound := exchange.outbound.advance none },
              exchange.outbound, ?_, .refl, rfl⟩
            rw [receiveFrom, buffered]
            dsimp only
            rw [never, race_of_never unending stays]
  | cons part parts inductionHypothesis =>
      cases buffered : (exchange.inbound.buffered? exchange.wire.codec :
          Option (Result ι × Inbound)) with
      | some given =>
          rw [askFrom, buffered] at asked
          cases asked
      | none =>
          rw [askFrom, buffered] at asked
          have isOpen : exchange.IsOpenAt (exchange.now + waits (part :: parts)) :=
            ⟨unending ▸ rfl, stays⟩
          obtain ⟨between, goesOn, raced⟩ := race_nextPartAt_cons state isOpen
          rw [receiveFrom_cons_of_waiting buffered raced]
          obtain ⟨after, outbound, gives, goesOnThen, last⟩ := @inductionHypothesis
            (takePart { exchange with now := exchange.now + waitOf part, outbound := between }
              part parts)
            rfl unending (stays.goesOn goesOn) asked
          exact ⟨after, outbound, gives, goesOn.trans goesOnThen, last⟩

/-- What a call is given that asks for a message is what the octets of its body give first. Time
has gone on then, and its caller has acted. -/
inductive Gets (exchange : Exchange) (ending : BodyEnding) (octets : Bytes) :
    Exchange × Option (Result ι) → Prop
  | never {after : Exchange} {outbound : Outbound} (silence : IsSilence ending octets)
      (goesOn : exchange.outbound.GoesOn outbound) (acts : after.outbound = outbound.advance none) :
      Gets exchange ending octets (after, none)
  | message {now : Nat} {outbound : Outbound} {parts : List BodyPart} {held : Bytes} {message : ι}
      (heard : ¬ IsSilence ending octets)
      (found : first exchange.wire.codec ending octets =
        (.ok (some message), held ++ parts.flatMap octetsOf))
      (goesOn : exchange.outbound.GoesOn outbound)
      (isOpen : exchange.cancellation.check (now + waits parts) = none) :
      Gets exchange ending octets
        ({ exchange with now, inbound := midway parts ending held, outbound },
          some (.ok (some message)))
  | last {now : Nat} {outbound : Outbound} {inbound : Inbound} {result : Result ι}
      (heard : ¬ IsSilence ending octets)
      (found : (first exchange.wire.codec ending octets).1 = result)
      (isLast : ∀ message, result ≠ .ok (some message))
      (finished : result = .ok none → inbound.finished = true)
      (goesOn : exchange.outbound.GoesOn outbound) :
      Gets exchange ending octets ({ exchange with now, inbound, outbound }, some result)

/-- A call that is open until its body came, and that nothing ends if the body falls silent, gets
what the octets held and those to come give first. -/
theorem gets_receive {exchange : Exchange} {ending : BodyEnding} {parts : List BodyPart}
    {held : Bytes} (state : exchange.inbound = midway parts ending held)
    (isOpen : exchange.IsOpenAt (exchange.now + waits parts))
    (lasts : IsSilence ending (held ++ parts.flatMap octetsOf) → exchange.cancellation = .never) :
    Gets exchange ending (held ++ parts.flatMap octetsOf)
      (exchange.receive : Exchange × Option (Result ι)) := by
  have sameParts : exchange.inbound.body.parts = parts := by
    rw [state]
    rfl
  have tells := tells_ask (ι := ι) exchange.wire.codec parts ending held
  rw [← state] at tells
  rw [← sameParts] at isOpen
  generalize asked : (exchange.inbound.ask exchange.wire.codec : Option (Result ι × Inbound)) =
    answer at tells
  cases tells with
  | silence silence =>
      obtain ⟨after, outbound, gives, goesOn, acts⟩ :=
        receiveFrom_of_silence rfl (lasts silence) isOpen.stays asked
      rw [receive, gives]
      exact .never silence goesOn acts
  | message heard found =>
      obtain ⟨now, outbound, gives, goesOn, time⟩ := receive_of_ask isOpen asked
      rw [gives]
      exact .message heard found goesOn (time ▸ isOpen.check)
  | last heard found isLast finished =>
      obtain ⟨now, outbound, gives, goesOn, _⟩ := receive_of_ask isOpen asked
      rw [gives]
      exact .last heard found isLast finished goesOn

/-! ## Reading a body -/

/-- A call that reads a body in the middle: `rest` are the octets held and those to come, and the
call is open until all of them came. If nothing comes behind them, they end the stream. -/
structure IsReading (exchange : Exchange) (ending : BodyEnding) (rest : Bytes) : Prop where
  ends : ending = .silent → EndsItself rest
  midway : ∃ parts held, exchange.inbound = Inbound.midway parts ending held ∧
    rest = held ++ parts.flatMap octetsOf ∧ exchange.IsOpenAt (exchange.now + waits parts)

/-- What asking gives is what the rest of the octets gives first. Behind a message the call goes on
reading, and behind the end it gives nothing more. -/
def GivesFirst (exchange : Exchange) (ending : BodyEnding) (rest : Bytes)
    (outcome : Exchange × Option (Result ι)) : Prop :=
  let expected : Result ι × Bytes := first exchange.wire.codec ending rest
  ∃ after, outcome = (after, some expected.1) ∧ after.wire = exchange.wire ∧
    (expected.1 = .ok none → after.inbound.finished = true) ∧
    ∀ message, expected.1 = .ok (some message) → after.IsReading ending expected.2

/-! ## Asking again and again -/

/-- What asking a number of times gives; fewer results if a wait never ends. -/
def receives : Nat → Exchange → List (Result ι)
  | 0, _ => []
  | count + 1, exchange =>
      match (exchange.receive : Exchange × Option (Result ι)) with
      | (_, none) => []
      | (after, some result) => result :: receives count after

/-- The octets of a body that is read to its end are no silence. -/
theorem IsReading.heard {exchange : Exchange} {ending : BodyEnding} {rest : Bytes}
    (reading : exchange.IsReading ending rest) : ¬ IsSilence ending rest := by
  rintro ⟨silent, cut⟩
  obtain ⟨frame, behind, answer, _⟩ := (reading.ends silent).next
  cases (isCut_iff.mp cut).symm.trans answer

theorem IsReading.receive_givesFirst {exchange : Exchange} {ending : BodyEnding} {rest : Bytes}
    (reading : exchange.IsReading ending rest) :
    GivesFirst exchange ending rest (exchange.receive : Exchange × Option (Result ι)) := by
  have heard := reading.heard
  have ends := reading.ends
  obtain ⟨parts, held, state, rfl, isOpen⟩ := reading.midway
  have gets := gets_receive (ι := ι) state isOpen fun silence => absurd silence heard
  generalize (exchange.receive : Exchange × Option (Result ι)) = outcome at gets
  rw [GivesFirst]
  cases gets with
  | never silence goesOn acts => exact absurd silence heard
  | @message now outbound later behind message _ found goesOn isOpenThen =>
      rw [found]
      refine ⟨_, rfl, rfl, fun isNone => (nomatch isNone), fun other isMessage => ?_⟩
      refine ⟨fun silent => (ends silent).behind found, later, behind, rfl, rfl, ?_⟩
      exact ⟨isOpenThen, isOpen.stays.goesOn goesOn⟩
  | last _ found isLast finished goesOn =>
      rw [found]
      exact ⟨_, rfl, rfl, finished, fun other isMessage => absurd isMessage (isLast other)⟩

theorem receives_of_finished {exchange : Exchange} (finished : exchange.inbound.finished = true)
    (count : Nat) :
    (receives count exchange : List (Result ι)) = List.replicate count (.ok none) := by
  have buffered : exchange.inbound.buffered? exchange.wire.codec =
      some ((.ok none : Result ι), exchange.inbound) := by
    rw [buffered?, finished]
    rfl
  induction count with
  | zero => rfl
  | succ count inductionHypothesis =>
      rw [receives, receive, receiveFrom_of_buffered buffered, List.replicate_succ]
      exact congrArg (.ok none :: ·) inductionHypothesis

/-- The results up to the first that is no message are those of the reference; behind an end
without a failure there are no messages any more. -/
theorem IsReading.receives_eq_reference {exchange : Exchange} {ending : BodyEnding} {rest : Bytes}
    (reading : exchange.IsReading ending rest) (count : Nat) :
    let expected : List (Result ι) := reference exchange.wire.codec ending rest
    (receives count exchange).take expected.length = expected.take count ∧
      (expected.getLast? = some (.ok none) →
        receives count exchange =
          expected.take count ++ List.replicate (count - expected.length) (.ok none)) := by
  induction count generalizing exchange rest with
  | zero => simp [receives]
  | succ count inductionHypothesis =>
      obtain ⟨after, outcome, sameWire, isOver, goesOn⟩ :=
        reading.receive_givesFirst (ι := ι)
      rw [receives, outcome]
      by_cases isMessage : ∃ message : ι,
          (first exchange.wire.codec ending rest).1 = .ok (some message)
      · obtain ⟨message, isMessage⟩ := isMessage
        obtain ⟨upToEnd, behindEnd⟩ := inductionHypothesis (goesOn message isMessage)
        rw [sameWire] at upToEnd behindEnd
        rw [reference_of_message (Prod.ext isMessage rfl), isMessage]
        refine ⟨?_, fun last => ?_⟩
        · simp only [List.length_cons, List.take_succ_cons, upToEnd]
        · rw [List.getLast?_cons_of_ne_nil (reference_ne_nil _ _ _)] at last
          simp only [List.length_cons, List.take_succ_cons, behindEnd last, List.cons_append,
            Nat.reduceSubDiff]
      · rw [reference_of_last rfl (fun message same => isMessage ⟨message, same⟩)]
        refine ⟨by simp, fun last => ?_⟩
        have isNone : (first exchange.wire.codec ending rest : Result ι × Bytes).1 = .ok none :=
          Option.some.inj last
        simp only [receives_of_finished (isOver isNone)]
        simp [isNone]

theorem length_receives_le (count : Nat) (exchange : Exchange) :
    (receives count exchange : List (Result ι)).length ≤ count := by
  induction count generalizing exchange with
  | zero => exact Nat.le_refl 0
  | succ count inductionHypothesis =>
      rw [receives]
      split
      · exact Nat.zero_le _
      · exact Nat.succ_le_succ (inductionHypothesis _)

/-- Asking often enough gives the whole reference. -/
theorem IsReading.receives_all {exchange : Exchange} {ending : BodyEnding} {rest : Bytes}
    {expected : List (Result ι)} (reading : exchange.IsReading ending rest)
    (isExpected : reference exchange.wire.codec ending rest = expected) :
    receives expected.length exchange = expected := by
  subst isExpected
  have upToEnd := (reading.receives_eq_reference (ι := ι)
    (reference exchange.wire.codec ending rest : List (Result ι)).length).1
  rwa [List.take_length, List.take_of_length_le (length_receives_le _ _)] at upToEnd

/-- For every body whose octets come in any parts at any times, and then end or break off, a call
that is open until then gets what the reference reads off the octets. -/
theorem receives_eq_reference_of_body {exchange : Exchange} {body : RequestBody}
    (fresh : exchange.inbound = Inbound.ofBody body) (ends : body.ending ≠ .silent)
    (isOpen : exchange.IsOpenAt (exchange.now + waits body.parts)) (count : Nat) :
    let expected : List (Result ι) :=
      reference exchange.wire.codec body.ending body.octets
    (receives count exchange).take expected.length = expected.take count ∧
      (expected.getLast? = some (.ok none) →
        receives count exchange =
          expected.take count ++ List.replicate (count - expected.length) (.ok none)) :=
  IsReading.receives_eq_reference
    ⟨fun silent => absurd silent ends, body.parts, [], fresh, rfl, isOpen⟩ count

/-- An empty message whose envelope comes in two parts, trailers between them, and then the body
breaks off inside a header. -/
def partedBody : RequestBody where
  parts := [.data [0, 0] 3, .trailers Headers.empty, .data [0, 0, 0, 7] 5]
  ending := .broken "gone"

/-- A call that reads the body above. -/
def partedExchange : Exchange where
  wire := .grpc .proto
  cancellation := .never
  inbound := .ofBody partedBody
  outbound := .unheard

theorem receives_of_partedBody :
    partedExchange.inbound = Inbound.ofBody partedBody ∧ partedBody.ending ≠ .silent ∧
      partedExchange.IsOpenAt (partedExchange.now + waits partedBody.parts) ∧
      let expected : List (Result Api.EchoRequest) :=
        reference partedExchange.wire.codec partedBody.ending partedBody.octets
      (receives 3 partedExchange).take expected.length = expected.take 3 ∧
        (expected.getLast? = some (.ok none) →
          receives 3 partedExchange =
            expected.take 3 ++ List.replicate (3 - expected.length) (.ok none)) :=
  have isOpen : partedExchange.IsOpenAt (partedExchange.now + waits partedBody.parts) :=
    ⟨rfl, Outbound.stays_unheard⟩
  ⟨rfl, by decide, isOpen, receives_eq_reference_of_body rfl (by decide) isOpen 3⟩

end Exchange

end RpcEcho
