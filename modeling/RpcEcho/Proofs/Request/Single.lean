import RpcEcho.Proofs.Call.Arbitration
import RpcEcho.Proofs.Request.Stream
import RpcEcho.Proofs.Response.Outbound

/-!
# Requests that hold one message

A request of a unary call is one message: the whole body, or the only envelope in it. A call that is
open until the body has come reads that message, however the octets are cut into parts.
-/

namespace RpcEcho

/-- The body of a request with one payload. -/
def WireFormat.single (wire : WireFormat) (payload : Bytes) : Bytes :=
  if wire.isEnveloped then Envelope.wrap payload Flags.message else payload

open Inbound RequestBody

variable {ι : Type} [Payload ι]

/-! ## Envelopes -/

/-- A body holds the envelope of one message, and the end of the messages behind it. -/
def RequestBody.HoldsOnly (body : RequestBody) (wire : WireFormat) (message : ι) : Prop :=
  ∃ payload rest, Payload.decode wire.codec payload = .ok message ∧
    payload.length ≤ Envelope.maxPayload ∧ EndsMessages body.ending rest ∧
    body.octets = Envelope.wrap payload Flags.message ++ rest

/-- The octets of the envelope of a payload give what the payload holds first, unless it is too
long. -/
theorem Inbound.first_of_wrap {payload : Bytes} (bound : payload.length < Bytes.wordBound)
    (codec : Codec) (ending : BodyEnding) (rest : Bytes) :
    first codec ending (Envelope.wrap payload Flags.message ++ rest) =
      if Envelope.maxPayload < payload.length then
        (.error (Envelope.Error.messageTooLarge payload.length Envelope.maxPayload).status,
          Envelope.wrap payload Flags.message ++ rest)
      else ((Payload.decode codec payload : Except Status ι).map some, rest) := by
  have header := Envelope.header?_wrap ⟨Flags.message, payload⟩ rest bound
  have complete : ¬ (payload ++ rest).length < payload.length := by
    rw [List.length_append]
    omega
  have held : content codec Flags.message payload =
      (Payload.decode codec payload : Except Status ι).map some := by
    change content codec (Envelope.Frame.mk Flags.message payload).flags payload = _
    have plain : (Flags.message.isEndStream || Flags.message.isTrailers) = false := by decide
    have uncompressed : Flags.message.isCompressed = false := rfl
    rw [content_eq_ofFrame codec ⟨Flags.message, payload⟩, ofFrame, endsStream, plain]
    simp [uncompressed]
  rw [Envelope.Frame.wrap] at header
  rw [first, header]
  simp only [complete, if_false, List.take_left, List.drop_left, held]
  rfl

/-- The octets of the envelope of a message give the message first. -/
theorem Inbound.first_wrap {codec : Codec} {payload : Bytes} {message : ι}
    (fits : payload.length ≤ Envelope.maxPayload)
    (decoded : Payload.decode codec payload = .ok message) (ending : BodyEnding) (rest : Bytes) :
    first codec ending (Envelope.wrap payload Flags.message ++ rest) =
      (.ok (some message), rest) := by
  have bound : payload.length < Bytes.wordBound := Nat.lt_of_le_of_lt fits (by decide)
  rw [first_of_wrap bound, if_neg (Nat.not_lt.mpr fits), decoded]
  rfl

namespace Exchange

variable {exchange : Exchange}

/-- The only message of a body is read if the end of the messages stands behind it. -/
theorem readOnly_of_wrap {payload rest : Bytes} {message : ι} {ending : BodyEnding}
    (fits : payload.length ≤ Envelope.maxPayload)
    (decoded : Payload.decode exchange.wire.codec payload = .ok message)
    (ends : EndsMessages ending rest)
    (reading : exchange.IsReading ending (Envelope.wrap payload Flags.message ++ rest)) :
    ∃ after, exchange.readOnly = (after, some (.ok message)) := by
  have firstIs : (first exchange.wire.codec ending (Envelope.wrap payload Flags.message ++ rest) :
      Result ι × Bytes) = (.ok (some message), rest) := first_wrap fits decoded ending rest
  obtain ⟨between, gives, _, _, goesOn⟩ := reading.receive_givesFirst (ι := ι)
  rw [firstIs] at gives goesOn
  obtain ⟨after, isOver, _⟩ := (goesOn message rfl).receive_givesFirst (ι := ι)
  rw [ends.first_eq] at isOver
  refine ⟨after, ?_⟩
  rw [readOnly, gives]
  simp only [isOver]

/-! ## What reading leaves as it was -/

/-- What becomes of a call while its request is read: its time goes on by what its parts take. -/
structure KeptBy (exchange after : Exchange) : Prop where
  same : ∃ now inbound, after = { exchange with now, inbound }
  time : after.now + waits after.inbound.body.parts =
    exchange.now + waits exchange.inbound.body.parts
  isOpen : after.done? = none

theorem KeptBy.trans {first second third : Exchange} (one : first.KeptBy second)
    (two : second.KeptBy third) : first.KeptBy third := by
  obtain ⟨now, inbound, rfl⟩ := one.same
  obtain ⟨later, left, rfl⟩ := two.same
  exact ⟨⟨later, left, rfl⟩, two.time.trans one.time, two.isOpen⟩

/-- A wait in a call that nobody listens to ends like the race. -/
theorem race_of_unheard_eq (unheard : exchange.outbound = Outbound.unheard) (ready : Option Nat) :
    exchange.race ready =
      match exchange.cancellation.race exchange.now ready with
      | none => (exchange, none)
      | some (time, result) => ({ exchange with now := time }, some result) := by
  have stays : exchange.outbound.Stays := unheard ▸ Outbound.stays_unheard
  obtain ⟨outbound, goesOn, raced⟩ := race_of_stays stays ready
  have same : outbound = exchange.outbound := by
    have advances : ∀ before limit, before = Outbound.unheard →
        before.advance limit = Outbound.unheard := by
      rintro before limit rfl
      exact Outbound.advance_of_idle fun time due => nomatch due
    rw [unheard] at goesOn ⊢
    exact goesOn.keeps advances rfl
  subst same
  exact raced

/-- A wait whose caller does not listen yet moves nothing but the time. -/
theorem race_of_unheard {after : Exchange} {ready : Option Nat}
    (unheard : exchange.outbound = Outbound.unheard)
    (raced : exchange.race ready = (after, some (.ok ()))) :
    ∃ readyAt, ready = some readyAt ∧
      after = { exchange with now := max exchange.now readyAt } ∧ after.done? = none := by
  rw [race_of_unheard_eq unheard] at raced
  cases ends : exchange.cancellation.race exchange.now ready with
  | none =>
      rw [ends] at raced
      cases raced
  | some ended =>
      obtain ⟨time, result⟩ := ended
      rw [ends] at raced
      cases raced
      obtain ⟨openThen, readyAt, isReady, isTime⟩ := (Cancellation.race_eq_some ends).isOpen rfl
      exact ⟨readyAt, isReady, by rw [← isTime], openThen⟩

theorem keptBy_of_buffered {result : Result ι} {inbound : Inbound} (isOpen : exchange.done? = none)
    (buffered : exchange.inbound.buffered? exchange.wire.codec = some (result, inbound)) :
    exchange.KeptBy { exchange with inbound } := by
  exact ⟨⟨exchange.now, inbound, rfl⟩, by rw [body_of_buffered buffered], isOpen⟩

theorem keptBy_takePart {between : Exchange} {part : BodyPart} {parts : List BodyPart}
    (unheard : exchange.outbound = Outbound.unheard)
    (state : exchange.inbound.body.parts = part :: parts)
    (raced : exchange.race exchange.nextPartAt = (between, some (.ok ()))) :
    exchange.KeptBy (between.takePart part parts) := by
  obtain ⟨readyAt, isReady, rfl, isOpen⟩ := race_of_unheard unheard raced
  rw [nextPartAt_cons state] at isReady
  cases isReady
  refine ⟨⟨_, _, rfl⟩, ?_, isOpen⟩
  have whole : waits (part :: parts) = waitOf part + waits parts := rfl
  change max exchange.now (exchange.now + waitOf part) + waits parts = _
  rw [state, whole]
  omega

/-- A call that is given a message, or none, is as it was but for its time and its body. -/
theorem keptBy_receiveFrom {after : Exchange} {parts : List BodyPart} {message? : Option ι}
    (unheard : exchange.outbound = Outbound.unheard) (isOpen : exchange.done? = none)
    (state : exchange.inbound.body.parts = parts)
    (given : exchange.receiveFrom parts = (after, some (.ok message?))) :
    exchange.KeptBy after := by
  induction parts generalizing exchange with
  | nil =>
      unfold receiveFrom at given
      split at given
      · rename_i buffered
        cases given
        exact keptBy_of_buffered isOpen buffered
      · split at given
        · cases given
        · cases given
        · rename_i between raced
          obtain ⟨rfl, _⟩ := Prod.mk.inj given
          obtain ⟨readyAt, isReady, rfl, openThen⟩ := race_of_unheard unheard raced
          have comesNow : readyAt = exchange.now := by
            rw [nextPartAt, state] at isReady
            cases ending : exchange.inbound.body.ending <;> simp_all
          subst comesNow
          refine ⟨⟨_, _, rfl⟩, ?_, openThen⟩
          change max exchange.now exchange.now + waits exchange.inbound.body.parts = _
          rw [Nat.max_self]
  | cons part parts inductionHypothesis =>
      unfold receiveFrom at given
      split at given
      · rename_i buffered
        cases given
        exact keptBy_of_buffered isOpen buffered
      · split at given
        · cases given
        · cases given
        · rename_i between raced
          have kept := keptBy_takePart unheard state raced
          obtain ⟨now, inbound, same⟩ := kept.same
          refine kept.trans (inductionHypothesis ?_ kept.isOpen rfl given)
          rw [same]
          exact unheard

theorem keptBy_readOnly {after : Exchange} {message : ι}
    (unheard : exchange.outbound = Outbound.unheard) (isOpen : exchange.done? = none)
    (given : exchange.readOnly = (after, some (.ok message))) : exchange.KeptBy after := by
  unfold readOnly at given
  split at given
  · cases given
  · cases given
  · cases given
  · rename_i between first gives
    have kept := keptBy_receiveFrom unheard isOpen rfl gives
    obtain ⟨now, inbound, same⟩ := kept.same
    have unheardThen : between.outbound = Outbound.unheard := by
      rw [same]
      exact unheard
    split at given
    · cases given
    · cases given
    · cases given
    · rename_i last givesNone
      cases given
      exact kept.trans (keptBy_receiveFrom unheardThen kept.isOpen rfl givesNone)

/-- A call that is open until its body has come reads the only message, and stays as it was but for
its time and its body. -/
theorem readOnly_of_holdsOnly {body : RequestBody} {message : ι}
    (fresh : exchange.inbound = Inbound.ofBody body)
    (unheard : exchange.outbound = Outbound.unheard)
    (holds : body.HoldsOnly exchange.wire message)
    (isOpen : exchange.cancellation.check (exchange.now + waits body.parts) = none) :
    ∃ after, exchange.readOnly = (after, some (.ok message)) ∧ exchange.KeptBy after := by
  obtain ⟨payload, rest, decoded, fits, ends, whole⟩ := holds
  have stays : exchange.outbound.Stays := unheard ▸ Outbound.stays_unheard
  have reading : exchange.IsReading body.ending (Envelope.wrap payload Flags.message ++ rest) := by
    refine ⟨fun silent => ?_, body.parts, [], fresh, whole.symm, isOpen, stays⟩
    rw [silent] at ends
    exact .later ⟨Flags.message, payload⟩ rest fits ends.endsItself
  obtain ⟨after, given⟩ := readOnly_of_wrap fits decoded ends reading
  have openNow : exchange.done? = none :=
    Cancellation.check_eq_none_of_le (Nat.le_add_right _ _) isOpen
  exact ⟨after, given, keptBy_readOnly unheard openNow given⟩

/-! ## Whole bodies -/

/-- While the call is open, the octets that came and those to come are read to their end, unless
they are too many. -/
theorem readBodyFrom_of_open {parts : List BodyPart} {read : Bytes}
    (state : exchange.inbound.body = ⟨parts, .complete⟩)
    (fits : read.length ≤ Envelope.maxPayload)
    (isOpen : exchange.IsOpenAt (exchange.now + waits parts)) :
    ∃ after, after.wire = exchange.wire ∧
      exchange.readBodyFrom read parts =
        (after, some (if Envelope.maxPayload < (read ++ parts.flatMap octetsOf).length
          then .error tooLong else .ok (read ++ parts.flatMap octetsOf))) := by
  -- A part moves octets from those to come to those read: one bound on both together is enough.
  induction parts generalizing exchange read with
  | nil =>
      obtain ⟨outbound, _, raced⟩ := race_nextPartAt_nil state (by decide) isOpen
      refine ⟨{ exchange with outbound }, rfl, ?_⟩
      rw [readBodyFrom, raced, List.flatMap_nil, List.append_nil, if_neg (Nat.not_lt.mpr fits)]
      simp only [state]
  | cons part parts inductionHypothesis =>
      have comes : exchange.inbound.body.parts = part :: parts := by rw [state]
      obtain ⟨outbound, goesOn, raced⟩ := race_nextPartAt_cons comes isOpen
      rw [List.flatMap_cons, ← List.append_assoc, readBodyFrom, raced]
      by_cases tooMany : Envelope.maxPayload < (read ++ octetsOf part).length
      · have whole : Envelope.maxPayload <
            (read ++ octetsOf part ++ parts.flatMap octetsOf).length := by
          rw [List.length_append]
          omega
        refine ⟨{ exchange with now := exchange.now + waitOf part, outbound }, rfl, ?_⟩
        simp only [tooMany, whole, if_true]
      · let next : Exchange :=
          { exchange with
            now := exchange.now + waitOf part, outbound
            inbound := exchange.inbound.withParts parts }
        have nextState : next.inbound.body = ⟨parts, .complete⟩ := by
          change { exchange.inbound.body with parts } = _
          rw [state]
        have openThen : next.IsOpenAt (next.now + waits parts) :=
          ⟨Nat.add_assoc exchange.now _ _ ▸ isOpen.check, isOpen.stays.goesOn goesOn⟩
        obtain ⟨after, nextWire, outcome⟩ :=
          inductionHypothesis nextState (Nat.not_lt.mp tooMany) openThen
        refine ⟨after, nextWire, ?_⟩
        simp only [tooMany, if_false]
        exact outcome

/-- The only message of a body without envelopes is the whole body, unless that is too long. -/
theorem readBody_of_open {body : RequestBody} (fresh : exchange.inbound = Inbound.ofBody body)
    (ends : body.ending = .complete)
    (isOpen : exchange.IsOpenAt (exchange.now + waits body.parts)) :
    ∃ after, exchange.readBody =
      (after, some (if Envelope.maxPayload < body.octets.length then .error tooLong
        else (Payload.decode exchange.wire.codec body.octets : Except Status ι))) := by
  obtain ⟨parts, ending⟩ := body
  cases ends
  have state : exchange.inbound.body = ⟨parts, .complete⟩ := by
    rw [fresh]
    rfl
  have empty : ([] : Bytes).length ≤ Envelope.maxPayload := Nat.zero_le _
  obtain ⟨after, sameWire, outcome⟩ := readBodyFrom_of_open state empty isOpen
  refine ⟨after, ?_⟩
  rw [readBody, state, outcome, List.nil_append, RequestBody.octets]
  dsimp only
  rw [sameWire]
  split <;> rfl

/-- A call that is open until its body has come reads the only message of the body. -/
theorem readSingle_of_open {payload : Bytes} {body : RequestBody} {message : ι}
    (fresh : exchange.inbound = Inbound.ofBody body) (ends : body.ending = .complete)
    (whole : body.octets = exchange.wire.single payload)
    (fits : payload.length ≤ Envelope.maxPayload)
    (decoded : Payload.decode exchange.wire.codec payload = .ok message)
    (isOpen : exchange.IsOpenAt (exchange.now + waits body.parts)) :
    ∃ after, exchange.readSingle = (after, some (.ok message)) := by
  rw [WireFormat.single] at whole
  by_cases enveloped : exchange.wire.isEnveloped = true
  · rw [if_pos enveloped] at whole
    rw [readSingle, if_pos enveloped]
    rw [← List.append_nil (Envelope.wrap payload Flags.message)] at whole
    exact readOnly_of_wrap fits decoded (.body ends)
      ⟨fun silent => (nomatch ends.symm.trans silent), body.parts, [], fresh, whole.symm, isOpen⟩
  · rw [if_neg enveloped] at whole
    have admitted : ¬ Envelope.maxPayload < payload.length := Nat.not_lt.mpr fits
    obtain ⟨after, outcome⟩ := readBody_of_open (ι := ι) fresh ends isOpen
    rw [whole, if_neg admitted, decoded] at outcome
    exact ⟨after, by rw [readSingle, if_neg enveloped, outcome]⟩

end Exchange

end RpcEcho
