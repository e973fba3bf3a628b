import RpcEcho.Request.Inbound
import RpcEcho.Proofs.Envelope.Schedule

/-!
# The messages of a body

`Inbound.reference` reads the messages of a body off all of its octets at once: it looks at the
octets in order and knows nothing of parts, times or readers. `first_of_frame`, `first_of_error` and
`first_of_none` say what it has to do with a reader that holds some of the octets.
-/

namespace RpcEcho

namespace Inbound

variable {ι : Type} [Payload ι]

/-! ## The reference -/

/-- What a body gives whose octets end without a frame: an error of the octets, if there is one. -/
def endingWith (ending : BodyEnding) (error? : Option Envelope.Error) : Result ι :=
  match ending, error? with
  | .broken reason, _ => .error (Status.of .canceled ("failed to read request body: " ++ reason))
  | _, some error => .error (Status.of .invalidArgument error.message)
  | _, none => .ok none

/-- What the flags and the payload of a frame give. -/
def content (codec : Codec) (flags : Flags) (payload : Bytes) : Result ι :=
  if flags.bits &&& 0x02 ≠ 0 ∨ flags.bits &&& 0x80 ≠ 0 then .ok none
  else if flags.bits &&& 0x01 ≠ 0 then
    .error (Status.of .unimplemented Envelope.Error.compressed.message)
  else if flags.bits ≠ 0 then
    .error (Status.of .invalidArgument (Envelope.Error.invalidFlags flags).message)
  else
    match codec.decode? (Payload.type ι) payload with
    | some message => .ok (some (Payload.ofMessage message))
    | none => .error ⟨.invalidArgument, codec.unreadable.message⟩

/-- What the octets of a body give first, and the octets behind it. -/
def first (codec : Codec) (ending : BodyEnding) (octets : Bytes) : Result ι × Bytes :=
  match Envelope.header? octets with
  | none =>
      if octets = [] then (endingWith ending none, octets)
      else (endingWith ending (some (.incompleteHeader octets.length)), octets)
  | some (flags, length, rest) =>
      if Envelope.maxPayload < length then
        (.error (Status.of .resourceExhausted
          (Envelope.Error.messageTooLarge length Envelope.maxPayload).message), octets)
      else if rest.length < length then
        (endingWith ending (some (.incompletePayload length rest.length)), octets)
      else (content codec flags (rest.take length), rest.drop length)

omit [Payload ι] in
theorem endingWith_ne_message (ending : BodyEnding) (error? : Option Envelope.Error)
    (message : ι) : endingWith ending error? ≠ (.ok (some message) : Result ι) := by
  unfold endingWith
  split <;> simp

theorem first_length_lt {codec : Codec} {ending : BodyEnding} {octets after : Bytes} {message : ι}
    (found : first codec ending octets = (.ok (some message), after)) :
    after.length < octets.length := by
  unfold first at found
  split at found
  · split at found
    · exact absurd (congrArg Prod.fst found) (endingWith_ne_message _ _ _)
    · exact absurd (congrArg Prod.fst found) (endingWith_ne_message _ _ _)
  · rename_i flags length rest header
    have size := Envelope.length_of_header? header
    split at found
    · cases congrArg Prod.fst found
    · split at found
      · exact absurd (congrArg Prod.fst found) (endingWith_ne_message _ _ _)
      · obtain rfl := congrArg Prod.snd found
        rw [size, Envelope.headerLength, List.length_drop]
        omega

/-- What the octets of a body give: messages, and then the end or a failure. -/
def reference (codec : Codec) (ending : BodyEnding) (octets : Bytes) : List (Result ι) :=
  match _found : first codec ending octets with
  | (.ok (some message), after) => .ok (some message) :: reference codec ending after
  | (result, _) => [result]
termination_by octets.length
decreasing_by exact first_length_lt _found

theorem reference_of_message {codec : Codec} {ending : BodyEnding} {octets after : Bytes}
    {message : ι} (found : first codec ending octets = (.ok (some message), after)) :
    reference codec ending octets = .ok (some message) :: reference codec ending after := by
  rw [reference]
  split
  · rename_i again
    rw [found] at again
    cases again
    rfl
  · rename_i other again
    rw [found] at again
    cases again
    exact absurd rfl (other message)

theorem reference_of_last {codec : Codec} {ending : BodyEnding} {octets : Bytes}
    {result : Result ι} (found : (first codec ending octets).1 = result)
    (last : ∀ message, result ≠ .ok (some message)) :
    reference codec ending octets = [result] := by
  subst found
  rw [reference]
  split
  · rename_i message after again
    exact absurd (congrArg Prod.fst again) (last message)
  · rename_i again
    rw [again]

theorem reference_ne_nil (codec : Codec) (ending : BodyEnding) (octets : Bytes) :
    (reference codec ending octets : List (Result ι)) ≠ [] := by
  rw [reference]
  split <;> simp

/-! ## The reference and the reader -/

theorem content_eq_ofFrame (codec : Codec) (frame : Envelope.Frame) :
    content codec frame.flags frame.payload = (ofFrame codec frame : Result ι) := by
  have notMessage : frame.flags ≠ Flags.message ↔ frame.flags.bits ≠ 0 := by
    obtain ⟨⟨bits⟩, payload⟩ := frame
    simp [Flags.message]
  unfold content ofFrame
  simp only [endsStream, Flags.isEndStream, Flags.isTrailers, Flags.isCompressed, notMessage,
    bne_iff_ne, Bool.or_eq_true]
  split
  · rfl
  · split
    · rfl
    · split
      · rfl
      · unfold Payload.decode Codec.decode
        cases codec.decode? (Payload.type ι) frame.payload with
        | none => cases codec <;> rfl
        | some message => rfl

/-- A frame gives no message exactly if it ends the stream, unless it is a failure. -/
theorem endsStream_of_ofFrame {codec : Codec} {frame : Envelope.Frame} {message? : Option ι}
    (given : ofFrame codec frame = .ok message?) : endsStream frame = message?.isNone := by
  unfold ofFrame at given
  split at given
  · rename_i ends
    cases given
    exact ends
  · rename_i goesOn
    split at given
    · cases given
    · split at given
      · cases given
      · cases decoded : (Payload.decode codec frame.payload : Except Status ι) with
        | error status =>
            rw [decoded] at given
            cases given
        | ok message =>
            rw [decoded] at given
            cases given
            simpa using goesOn

def readerOf (octets : Bytes) : Envelope.Decoder := { pending := octets }

@[simp]
theorem pending_readerOf (octets : Bytes) : (readerOf octets).pending = octets := rfl

theorem first_of_frame {octets more : Bytes} {frame : Envelope.Frame} {after : Envelope.Decoder}
    (answer : (readerOf octets).next = .ok (some frame, after)) (codec : Codec)
    (ending : BodyEnding) :
    (first codec ending (octets ++ more) : Result ι × Bytes) =
      (ofFrame codec frame, after.pending ++ more) := by
  obtain ⟨fits, bound, _, shape⟩ := Envelope.Decoder.next_eq_frame_iff.mp answer
  have header := Envelope.header?_wrap frame (after.pending ++ more) bound
  have whole : octets ++ more = frame.wrap ++ (after.pending ++ more) := by
    rw [← List.append_assoc]
    exact congrArg (· ++ more) shape
  have admitted : ¬ Envelope.maxPayload < frame.payload.length := Nat.not_lt.mpr fits
  have complete :
      ¬ (frame.payload ++ (after.pending ++ more)).length < frame.payload.length := by
    rw [List.length_append]
    omega
  rw [whole, first, header]
  simp only [admitted, complete, if_false, List.take_left, List.drop_left, content_eq_ofFrame]

theorem first_of_error {octets : Bytes} {error : Envelope.Error}
    (answer : (readerOf octets).next = .error error) (codec : Codec) (ending : BodyEnding)
    (more : Bytes) :
    (first codec ending (octets ++ more) : Result ι × Bytes) =
      (.error error.status, octets ++ more) := by
  obtain ⟨size, ⟨flags, rest, header⟩, tooMuch, rfl⟩ := Envelope.Decoder.next_eq_error_iff.mp answer
  have excess : Envelope.maxPayload < size := tooMuch
  rw [pending_readerOf] at header
  rw [first, Envelope.header?_append header more]
  simp only [excess, if_true]
  rfl

/-- At the end of a body, octets without a frame give what the end gives. -/
theorem first_of_none {octets : Bytes} {after : Envelope.Decoder}
    (answer : (readerOf octets).next = .ok (none, after)) (codec : Codec) (ending : BodyEnding)
    (parts : List BodyPart) (finished : Bool) :
    (first codec ending octets : Result ι × Bytes) =
      (atEnd ⟨⟨parts, ending⟩, readerOf octets, finished⟩, octets) := by
  obtain ⟨_, short | ⟨flags, length, rest, header, fits, missing⟩⟩ :=
    Envelope.Decoder.next_eq_none_iff.mp answer
  · have header := Envelope.header?_eq_none_iff.mpr short
    rw [pending_readerOf] at header
    rw [first, atEnd, Envelope.Decoder.finish, pending_readerOf, header]
    cases octets <;> cases ending <;> rfl
  · have admitted : ¬ Envelope.maxPayload < length := Nat.not_lt.mpr fits
    rw [pending_readerOf] at header
    rw [first, atEnd, Envelope.Decoder.finish, pending_readerOf, header]
    simp only [admitted, missing, if_false, if_true]
    cases ending <;> rfl

omit [Payload ι] in
theorem atEnd_ne_message (inbound : Inbound) (message : ι) :
    inbound.atEnd ≠ (.ok (some message) : Result ι) := by
  unfold atEnd
  split <;> simp

/-- Octets hold whole frames of which one ends the stream. What stands behind that one does not
matter. -/
inductive EndsItself : Bytes → Prop where
  | here (frame : Envelope.Frame) (behind : Bytes)
      (fits : frame.payload.length ≤ Envelope.maxPayload) (ends : endsStream frame = true) :
      EndsItself (frame.wrap ++ behind)
  | later (frame : Envelope.Frame) (rest : Bytes)
      (fits : frame.payload.length ≤ Envelope.maxPayload) (endsLater : EndsItself rest) :
      EndsItself (frame.wrap ++ rest)

theorem next_readerOf_wrap (frame : Envelope.Frame)
    (fits : frame.payload.length ≤ Envelope.maxPayload) (rest : Bytes) :
    (readerOf (frame.wrap ++ rest)).next = .ok (some frame, readerOf rest) :=
  Envelope.Decoder.next_eq_frame_iff.mpr
    ⟨fits, Nat.lt_of_le_of_lt fits (by decide), rfl, rfl⟩

/-- Octets that end the stream begin with a frame. Behind a frame that does not end the stream they
still end it. -/
theorem EndsItself.next {octets : Bytes} (ends : EndsItself octets) :
    ∃ frame rest, (readerOf octets).next = .ok (some frame, readerOf rest) ∧
      (endsStream frame = false → EndsItself rest) := by
  cases ends with
  | here frame behind fits ends =>
      refine ⟨frame, behind, next_readerOf_wrap frame fits behind, fun goesOn => ?_⟩
      rw [ends] at goesOn
      cases goesOn
  | later frame rest fits endsLater =>
      exact ⟨frame, rest, next_readerOf_wrap frame fits rest, fun _ => endsLater⟩

/-- Behind a message, octets that end the stream still end it. -/
theorem EndsItself.behind {codec : Codec} {ending : BodyEnding} {octets after : Bytes}
    {message : ι} (ends : EndsItself octets)
    (found : first codec ending octets = (.ok (some message), after)) : EndsItself after := by
  obtain ⟨frame, rest, answer, endsLater⟩ := ends.next
  have given : (first codec ending (octets ++ []) : Result ι × Bytes) =
      (ofFrame codec frame, rest ++ []) := first_of_frame answer codec ending
  rw [List.append_nil, List.append_nil] at given
  obtain ⟨isMessage, rfl⟩ := Prod.mk.inj (given.symm.trans found)
  exact endsLater (endsStream_of_ofFrame isMessage)

/-- The octets behind the messages of a body: none if the body is over, or a frame that ends the
stream and anything behind it. -/
inductive EndsMessages (ending : BodyEnding) : Bytes → Prop where
  | body (complete : ending = .complete) : EndsMessages ending []
  | frame (last : Envelope.Frame) (behind : Bytes)
      (fits : last.payload.length ≤ Envelope.maxPayload)
      (ends : last.flags.bits &&& 0x02 ≠ 0 ∨ last.flags.bits &&& 0x80 ≠ 0) :
      EndsMessages ending (last.wrap ++ behind)

omit [Payload ι] in
theorem endsStream_iff {frame : Envelope.Frame} :
    endsStream frame = true ↔ frame.flags.bits &&& 0x02 ≠ 0 ∨ frame.flags.bits &&& 0x80 ≠ 0 := by
  simp [endsStream, Flags.isEndStream, Flags.isTrailers]

theorem EndsMessages.first_eq {ending : BodyEnding} {rest : Bytes}
    (ends : EndsMessages ending rest) (codec : Codec) :
    (first codec ending rest : Result ι × Bytes).1 = .ok none := by
  cases ends with
  | body complete =>
      rw [complete]
      rfl
  | frame last behind fits ends =>
      have answer := next_readerOf_wrap last fits []
      rw [List.append_nil] at answer
      rw [first_of_frame answer, ofFrame, if_pos (endsStream_iff.mpr ends)]

theorem EndsMessages.endsItself {rest : Bytes} (ends : EndsMessages .silent rest) :
    EndsItself rest := by
  cases ends with
  | body complete => cases complete
  | frame last behind fits ends => exact .here last behind fits (endsStream_iff.mpr ends)

/-- A stream of which some parts are still to come, and some octets came and are held. -/
def midway (parts : List BodyPart) (ending : BodyEnding) (held : Bytes) : Inbound where
  body := ⟨parts, ending⟩
  decoder := readerOf held

theorem buffered?_midway (codec : Codec) (parts : List BodyPart) (ending : BodyEnding)
    (held : Bytes) :
    ((readerOf held).next = .ok (none, readerOf held) ∧
        (midway parts ending held).buffered? codec =
          (none : Option (Result ι × Inbound))) ∨
      (∃ frame after, (readerOf held).next = .ok (some frame, after) ∧
        (midway parts ending held).buffered? codec =
          some ((ofFrame codec frame : Result ι), ⟨⟨parts, ending⟩, after, endsStream frame⟩)) ∨
      ∃ error, (readerOf held).next = .error error ∧
        (midway parts ending held).buffered? codec =
          some ((.error error.status : Result ι), midway parts ending held) := by
  rcases Envelope.Decoder.pull_cases (readerOf held) with
    ⟨answer, _⟩ | ⟨frame, after, answer, _⟩ | ⟨error, answer, _⟩
  · exact Or.inl ⟨answer, by simp [buffered?, midway, answer]⟩
  · exact Or.inr (Or.inl ⟨frame, after, answer, by simp [buffered?, midway, answer]⟩)
  · exact Or.inr (Or.inr ⟨error, answer, by simp [buffered?, midway, answer]⟩)

end Inbound

end RpcEcho
