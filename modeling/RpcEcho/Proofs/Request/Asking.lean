import RpcEcho.Proofs.Request.Reference

/-!
# Asking for a message

A call that asks for a message takes in parts of the body until a message can be told, or the end.
`Inbound.ask` is what that comes to when nothing but the body decides; it knows nothing of time.

`Inbound.parse` reads everything off the octets of a body at once, as `Inbound.reference` does, but
it also knows of bodies that fall silent: behind octets that hold no whole frame nothing more is
told then. `ask_cases` says that asking gives one result of the parse after the other.
-/

namespace RpcEcho.Inbound

open RequestBody

variable {ι : Type} [Payload ι]

/-! ## Asking -/

/-- What asking for a message gives, and the stream behind it, given the parts that are still to
come; nothing if the body falls silent before a message can be told. -/
def askFrom (codec : Codec) (inbound : Inbound) (parts : List BodyPart) :
    Option (Result ι × Inbound) :=
  match inbound.buffered? codec with
  | some given => some given
  | none =>
    match parts with
    | [] =>
      if inbound.body.ending = .silent then none
      else some (inbound.atEnd, { inbound with finished := true })
    | part :: rest => ((inbound.push (octetsOf part)).withParts rest).askFrom codec rest
termination_by structural parts

/-- What asking for a message gives, and the stream behind it. -/
def ask (codec : Codec) (inbound : Inbound) : Option (Result ι × Inbound) :=
  inbound.askFrom codec inbound.body.parts

theorem body_of_buffered {codec : Codec} {inbound after : Inbound} {result : Result ι}
    (buffered : inbound.buffered? codec = some (result, after)) : after.body = inbound.body := by
  unfold buffered? at buffered
  split at buffered
  · cases buffered
    rfl
  · split at buffered <;> cases buffered <;> rfl

/-! ## All octets at once -/

/-- Octets hold no whole frame, and announce none that is too long. -/
def isCut (octets : Bytes) : Bool :=
  match Envelope.header? octets with
  | none => true
  | some (_, length, rest) => length ≤ Envelope.maxPayload && rest.length < length

/-- Nothing is told of octets without a whole frame if the body falls silent behind them. -/
def IsSilence (ending : BodyEnding) (octets : Bytes) : Prop :=
  ending = .silent ∧ isCut octets = true

instance (ending : BodyEnding) (octets : Bytes) : Decidable (IsSilence ending octets) :=
  inferInstanceAs (Decidable (_ ∧ _))

/-- All that the octets of a body give: messages, and then the end or a failure, unless the body
falls silent before. -/
def parse (codec : Codec) (ending : BodyEnding) (octets : Bytes) : List (Result ι) :=
  if IsSilence ending octets then []
  else
    match _found : first codec ending octets with
    | (.ok (some message), after) => .ok (some message) :: parse codec ending after
    | (result, _) => [result]
termination_by octets.length
decreasing_by exact first_length_lt _found

section Parse

variable {codec : Codec} {ending : BodyEnding} {octets after : Bytes}

theorem parse_of_silence (silence : IsSilence ending octets) :
    (parse codec ending octets : List (Result ι)) = [] := by
  rw [parse, if_pos silence]

theorem parse_of_message {message : ι} (heard : ¬ IsSilence ending octets)
    (found : first codec ending octets = (.ok (some message), after)) :
    parse codec ending octets = .ok (some message) :: parse codec ending after := by
  rw [parse, if_neg heard]
  split
  · rename_i again
    rw [found] at again
    cases again
    rfl
  · rename_i other again
    rw [found] at again
    cases again
    exact absurd rfl (other message)

theorem parse_of_last {result : Result ι} (heard : ¬ IsSilence ending octets)
    (found : (first codec ending octets).1 = result)
    (last : ∀ message, result ≠ .ok (some message)) : parse codec ending octets = [result] := by
  subst found
  rw [parse, if_neg heard]
  split
  · rename_i message after again
    exact absurd (congrArg Prod.fst again) (last message)
  · rename_i again
    rw [again]

/-- What the first of the octets gives, and what then follows. -/
theorem parse_cases (codec : Codec) (ending : BodyEnding) (octets : Bytes) :
    IsSilence ending octets ∧ (parse codec ending octets : List (Result ι)) = [] ∨
      ¬ IsSilence ending octets ∧
        ((∃ message after, first codec ending octets = ((.ok (some message) : Result ι), after) ∧
            parse codec ending octets = .ok (some message) :: parse codec ending after) ∨
          ∃ result : Result ι, (∀ message, result ≠ .ok (some message)) ∧
            (first codec ending octets).1 = result ∧ parse codec ending octets = [result]) := by
  by_cases silence : IsSilence ending octets
  · exact .inl ⟨silence, parse_of_silence silence⟩
  · refine .inr ⟨silence, ?_⟩
    cases found : (first codec ending octets : Result ι × Bytes) with
    | mk result after =>
        match result, found with
        | .ok (some message), found =>
            exact .inl ⟨message, after, rfl, parse_of_message silence found⟩
        | .ok none, found =>
            have last (message : ι) : (.ok none : Result ι) ≠ .ok (some message) := nofun
            exact .inr ⟨_, last, rfl, parse_of_last silence (congrArg Prod.fst found) last⟩
        | .error status, found =>
            have last (message : ι) : (.error status : Result ι) ≠ .ok (some message) := nofun
            exact .inr ⟨_, last, rfl, parse_of_last silence (congrArg Prod.fst found) last⟩

/-- Of a body that ends or breaks off, the parse is the reference. -/
theorem parse_eq_reference (ends : ending ≠ .silent) :
    (parse codec ending octets : List (Result ι)) = reference codec ending octets := by
  fun_induction parse (ι := ι) codec ending octets with
  | case1 octets silence => exact absurd silence.1 ends
  | case2 octets heard message after found inductionHypothesis =>
      rw [reference_of_message found, inductionHypothesis]
  | case3 octets heard result after isOther found =>
      refine (reference_of_last (congrArg Prod.fst found) fun message same => ?_).symm
      exact isOther message same

end Parse

/-! ## Asking and the parse -/

theorem isCut_iff {octets : Bytes} :
    isCut octets = true ↔ (readerOf octets).next = .ok (none, readerOf octets) := by
  rw [Envelope.Decoder.next_eq_none_iff, pending_readerOf, isCut, eq_self, true_and,
    ← Envelope.header?_eq_none_iff]
  cases header : Envelope.header? octets with
  | none => simp
  | some parts =>
      obtain ⟨flags, length, rest⟩ := parts
      simp only [reduceCtorEq, false_or, Bool.and_eq_true, decide_eq_true_eq]
      constructor
      · exact fun bounds => ⟨flags, length, rest, rfl, bounds⟩
      · rintro ⟨_, _, _, same, bounds⟩
        cases same
        exact bounds

/-- Octets that hold a whole frame hold it with more octets behind them. -/
theorem not_isSilence_of_frame {held : Bytes} {frame : Envelope.Frame} {after : Envelope.Decoder}
    (answer : (readerOf held).next = .ok (some frame, after)) (ending : BodyEnding)
    (more : Bytes) : ¬ IsSilence ending (held ++ more) := by
  rintro ⟨_, cut⟩
  cases (isCut_iff.mp cut).symm.trans (Envelope.Decoder.next_push_of_frame answer more)

theorem not_isSilence_of_error {held : Bytes} {error : Envelope.Error}
    (answer : (readerOf held).next = .error error) (ending : BodyEnding) (more : Bytes) :
    ¬ IsSilence ending (held ++ more) := by
  rintro ⟨_, cut⟩
  cases (isCut_iff.mp cut).symm.trans (Envelope.Decoder.next_push_of_error answer more)

/-- An answer to somebody who asks for a message tells what the octets of a body give first: a
message, behind which the other octets are still to be read, or the last result. -/
inductive Tells (codec : Codec) (ending : BodyEnding) (octets : Bytes) :
    Option (Result ι × Inbound) → Prop
  | silence (silence : IsSilence ending octets) : Tells codec ending octets none
  | message {parts : List BodyPart} {held : Bytes} {message : ι}
      (heard : ¬ IsSilence ending octets)
      (found : first codec ending octets =
        (.ok (some message), held ++ parts.flatMap octetsOf)) :
      Tells codec ending octets (some (.ok (some message), midway parts ending held))
  | last {result : Result ι} {after : Inbound} (heard : ¬ IsSilence ending octets)
      (found : (first codec ending octets).1 = result)
      (isLast : ∀ message, result ≠ .ok (some message))
      (finished : result = .ok none → after.finished = true) :
      Tells codec ending octets (some (result, after))

section Tells

variable {codec : Codec} {ending : BodyEnding} {parts : List BodyPart} {held : Bytes}

theorem tells_of_frame {frame : Envelope.Frame} {after : Envelope.Decoder}
    (answer : (readerOf held).next = .ok (some frame, after)) :
    Tells codec ending (held ++ parts.flatMap octetsOf)
      (some ((ofFrame codec frame : Result ι), ⟨⟨parts, ending⟩, after, endsStream frame⟩)) := by
  have heard := not_isSilence_of_frame answer ending (parts.flatMap octetsOf)
  have found : (first codec ending (held ++ parts.flatMap octetsOf) : Result ι × Bytes) =
      (ofFrame codec frame, after.pending ++ parts.flatMap octetsOf) :=
    first_of_frame answer codec ending
  cases given : (ofFrame codec frame : Result ι) with
  | error status =>
      exact .last heard (by rw [found, given]) (fun message same => nomatch same)
        fun same => nomatch same
  | ok message? =>
      have ends := endsStream_of_ofFrame given
      cases message? with
      | none =>
          exact .last heard (by rw [found, given]) (fun message same => nomatch same) fun _ => ends
      | some message =>
          have sameLimit := Envelope.Decoder.next_limit answer
          have isMidway : (⟨⟨parts, ending⟩, after, endsStream frame⟩ : Inbound) =
              midway parts ending after.pending := by
            rw [ends]
            cases after
            cases sameLimit
            rfl
          rw [given] at found
          rw [isMidway]
          exact .message heard found

theorem tells_of_error {error : Envelope.Error} (answer : (readerOf held).next = .error error) :
    Tells codec ending (held ++ parts.flatMap octetsOf)
      (some ((.error error.status : Result ι), midway parts ending held)) := by
  have found : (first codec ending (held ++ parts.flatMap octetsOf) : Result ι × Bytes).1 =
      .error error.status := by
    rw [first_of_error answer]
  exact .last (not_isSilence_of_error answer ending _) found (fun message same => nomatch same)
    fun same => nomatch same

/-- Asking tells what the octets held and those to come give first. -/
theorem tells_askFrom (codec : Codec) (parts : List BodyPart) (ending : BodyEnding)
    (held : Bytes) :
    Tells codec ending (held ++ parts.flatMap octetsOf)
      ((midway parts ending held).askFrom codec parts : Option (Result ι × Inbound)) := by
  -- A part that comes moves octets from those to come to those held.
  induction parts generalizing held with
  | nil =>
      rcases buffered?_midway (ι := ι) codec [] ending held with
        ⟨answer, waiting⟩ | ⟨frame, after, answer, buffered⟩ | ⟨error, answer, buffered⟩
      · rw [askFrom, waiting, List.flatMap_nil, List.append_nil]
        by_cases silent : ending = .silent
        · have isSilent : (midway [] ending held).body.ending = .silent := silent
          rw [if_pos isSilent]
          exact .silence ⟨silent, isCut_iff.mpr answer⟩
        · have isHeard : (midway [] ending held).body.ending ≠ .silent := silent
          have found : (first codec ending held : Result ι × Bytes) = _ :=
            first_of_none answer codec ending [] false
          rw [if_neg isHeard]
          exact .last (fun silence => silent silence.1) (congrArg Prod.fst found)
            (atEnd_ne_message _) fun _ => rfl
      · rw [askFrom, buffered]
        exact tells_of_frame answer
      · rw [askFrom, buffered]
        exact tells_of_error answer
  | cons part parts inductionHypothesis =>
      rcases buffered?_midway (ι := ι) codec (part :: parts) ending held with
        ⟨_, waiting⟩ | ⟨frame, after, answer, buffered⟩ | ⟨error, answer, buffered⟩
      · rw [askFrom, waiting, List.flatMap_cons, ← List.append_assoc]
        exact inductionHypothesis (held ++ octetsOf part)
      · rw [askFrom, buffered]
        exact tells_of_frame answer
      · rw [askFrom, buffered]
        exact tells_of_error answer

theorem tells_ask (codec : Codec) (parts : List BodyPart) (ending : BodyEnding) (held : Bytes) :
    Tells codec ending (held ++ parts.flatMap octetsOf)
      ((midway parts ending held).ask codec : Option (Result ι × Inbound)) :=
  tells_askFrom codec parts ending held

end Tells

end RpcEcho.Inbound
