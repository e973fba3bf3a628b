import RpcEcho.Proofs.Envelope.Framing

/-!
# Envelope readers under any schedule

Octets come to a reader in pieces, and frames are asked for at any time: between two pieces, or
only at the end. A schedule is a list of such moves, and `Decoder.run` gives the answers together
with the reader at the end. Asking until there is nothing more to get is `Decoder.drain`.

The invariant is that a schedule only postpones work: whatever a schedule has read, together with
what the reader would still give, is what the reader would have given for all octets at once.
`run_isFaithful` collects what follows for every schedule at every moment.
-/

namespace RpcEcho.Envelope

/-- What is done with a reader. -/
inductive Move where
  /-- Octets come. -/
  | push (octets : Bytes)
  /-- The next frame is asked for. -/
  | pull
  deriving DecidableEq, Repr

/-- All octets that come, in order. -/
def Move.pushed : List Move → Bytes
  | [] => []
  | .push octets :: moves => octets ++ Move.pushed moves
  | .pull :: moves => Move.pushed moves

/-- What asking for a frame gives: a frame, nothing yet, or a failure. -/
abbrev Answer := Except Error (Option Frame)

def framesOf : List Answer → List Frame
  | [] => []
  | .ok (some frame) :: answers => frame :: framesOf answers
  | .ok none :: answers => framesOf answers
  | .error _ :: answers => framesOf answers

namespace Decoder

/-- Asks for a frame. A failure leaves the reader as it was. -/
def pull (decoder : Decoder) : Answer × Decoder :=
  match decoder.next with
  | .ok (frame?, after) => (.ok frame?, after)
  | .error error => (.error error, decoder)

/-- The answers along a schedule, and the reader at its end. -/
def run (decoder : Decoder) : List Move → List Answer × Decoder
  | [] => ([], decoder)
  | .push octets :: moves => (decoder.push octets).run moves
  | .pull :: moves =>
      let rest := decoder.pull.2.run moves
      (decoder.pull.1 :: rest.1, rest.2)

/-- What a reader gives until there is nothing more to get. -/
structure Drained where
  frames : List Frame
  /-- The failure that stopped the reading, if one did. -/
  failure : Option Error
  /-- The reader with the octets that make no frame. -/
  left : Decoder

/-- Asks for frames until there is none or a failure. -/
def drain (decoder : Decoder) : Drained :=
  match _answer : decoder.next with
  | .error error => ⟨[], some error, decoder⟩
  | .ok (none, _) => ⟨[], none, decoder⟩
  | .ok (some frame, after) =>
      let rest := after.drain
      ⟨frame :: rest.frames, rest.failure, rest.left⟩
termination_by decoder.pending.length
decreasing_by exact next_length_lt _answer

/-! ## Asking once -/

theorem pull_of_frame {decoder after : Decoder} {frame : Frame}
    (answer : decoder.next = .ok (some frame, after)) :
    decoder.pull = (.ok (some frame), after) := by
  rw [pull, answer]

theorem pull_of_error {decoder : Decoder} {error : Error}
    (answer : decoder.next = .error error) :
    decoder.pull = (.error error, decoder) := by
  rw [pull, answer]

theorem pull_of_none {decoder after : Decoder}
    (answer : decoder.next = .ok (none, after)) :
    decoder.pull = (.ok none, decoder) := by
  obtain ⟨rfl, _⟩ := next_eq_none_iff.mp answer
  rw [pull, answer]

/-- Asking gives nothing yet, a frame or a failure, and only a frame changes the reader. -/
theorem pull_cases (decoder : Decoder) :
    (decoder.next = .ok (none, decoder) ∧ decoder.pull = (.ok none, decoder)) ∨
      (∃ frame after, decoder.next = .ok (some frame, after) ∧
        decoder.pull = (.ok (some frame), after)) ∨
      ∃ error, decoder.next = .error error ∧ decoder.pull = (.error error, decoder) := by
  cases answer : decoder.next with
  | error error => exact Or.inr (Or.inr ⟨error, rfl, pull_of_error answer⟩)
  | ok found =>
      obtain ⟨frame?, after⟩ := found
      cases frame? with
      | none =>
          obtain ⟨same, _⟩ := next_eq_none_iff.mp answer
          exact Or.inl ⟨by rw [same], pull_of_none answer⟩
      | some frame => exact Or.inr (Or.inl ⟨frame, after, rfl, pull_of_frame answer⟩)

theorem pull_fst_eq_error_iff {decoder : Decoder} {error : Error} :
    decoder.pull.1 = .error error ↔ decoder.next = .error error := by
  rcases pull_cases decoder with
    ⟨answer, asked⟩ | ⟨_, _, answer, asked⟩ | ⟨_, answer, asked⟩ <;> rw [answer, asked] <;> simp

theorem pull_fst_eq_none_iff {decoder : Decoder} :
    decoder.pull.1 = .ok none ↔ decoder.next = .ok (none, decoder) := by
  rcases pull_cases decoder with
    ⟨answer, asked⟩ | ⟨_, _, answer, asked⟩ | ⟨_, answer, asked⟩ <;> rw [answer, asked] <;> simp

/-! ## Asking until nothing is left -/

theorem drain_of_frame {decoder after : Decoder} {frame : Frame}
    (answer : decoder.next = .ok (some frame, after)) :
    decoder.drain = ⟨frame :: after.drain.frames, after.drain.failure, after.drain.left⟩ := by
  rw [drain]
  split <;> rename_i found <;> rw [answer] at found <;> cases found
  rfl

theorem drain_of_none {decoder : Decoder} (answer : decoder.next = .ok (none, decoder)) :
    decoder.drain = ⟨[], none, decoder⟩ := by
  rw [drain]
  split <;> rename_i found <;> rw [answer] at found <;> cases found

theorem drain_of_error {decoder : Decoder} {error : Error}
    (answer : decoder.next = .error error) :
    decoder.drain = ⟨[], some error, decoder⟩ := by
  rw [drain]
  split <;> rename_i found <;> rw [answer] at found <;> cases found
  rfl

/-- Reading on when more octets come is reading all octets at once. -/
theorem drain_push (decoder : Decoder) (more : Bytes) :
    (decoder.push more).drain =
      ⟨decoder.drain.frames ++ (decoder.drain.left.push more).drain.frames,
        (decoder.drain.left.push more).drain.failure,
        (decoder.drain.left.push more).drain.left⟩ := by
  -- The induction follows the frames that are complete before more octets come.
  induction measured : decoder.pending.length using Nat.strongRecOn generalizing decoder with
  | _ size inductionHypothesis =>
      rcases pull_cases decoder with
        ⟨answer, _⟩ | ⟨frame, after, answer, _⟩ | ⟨error, answer, _⟩
      · rw [drain_of_none answer]
        rfl
      · have shorter : after.pending.length < size := measured ▸ next_length_lt answer
        have rest := inductionHypothesis after.pending.length shorter after rfl
        rw [drain_of_frame answer, drain_of_frame (next_push_of_frame answer more), rest]
        rfl
      · rw [drain_of_error answer]
        rfl

/-- The frames and what is left are all octets, and no frame is longer than the reader takes. -/
theorem drain_conserves (decoder : Decoder) :
    decoder.drain.frames.flatMap Frame.wrap ++ decoder.drain.left.pending = decoder.pending ∧
      ∀ frame ∈ decoder.drain.frames, frame.payload.length ≤ decoder.limit := by
  induction measured : decoder.pending.length using Nat.strongRecOn generalizing decoder with
  | _ size inductionHypothesis =>
      rcases pull_cases decoder with
        ⟨answer, _⟩ | ⟨frame, after, answer, _⟩ | ⟨error, answer, _⟩
      · rw [drain_of_none answer]
        exact ⟨rfl, fun _ member => by cases member⟩
      · have shorter : after.pending.length < size := measured ▸ next_length_lt answer
        obtain ⟨kept, bounded⟩ := inductionHypothesis after.pending.length shorter after rfl
        obtain ⟨fits, _, sameLimit, shape⟩ := next_eq_frame_iff.mp answer
        rw [drain_of_frame answer]
        constructor
        · rw [List.flatMap_cons, List.append_assoc, kept, shape]
        · intro other member
          rcases List.mem_cons.mp member with isFirst | inRest
          · rw [isFirst]
            exact fits
          · rw [← sameLimit]
            exact bounded other inRest
      · rw [drain_of_error answer]
        exact ⟨rfl, fun _ member => by cases member⟩

/-- Written frames that the reader takes are read back, and nothing is left of them. -/
theorem drain_written (limit : Nat) (sent : List Frame)
    (fits : ∀ frame ∈ sent, frame.payload.length ≤ limit ∧ frame.payload.length < Bytes.wordBound) :
    ({ limit, pending := sent.flatMap Frame.wrap } : Decoder).drain = ⟨sent, none, { limit }⟩ := by
  induction sent with
  | nil =>
      exact drain_of_none (next_eq_none_iff.mpr ⟨rfl, Or.inl (by simp [headerLength])⟩)
  | cons frame sent inductionHypothesis =>
      obtain ⟨⟨fitsFrame, bound⟩, fitsRest⟩ := List.forall_mem_cons.mp fits
      have answer :
          ({ limit, pending := (frame :: sent).flatMap Frame.wrap } : Decoder).next =
            .ok (some frame, { limit, pending := sent.flatMap Frame.wrap }) :=
        next_eq_frame_iff.mpr ⟨fitsFrame, bound, rfl, List.flatMap_cons⟩
      rw [drain_of_frame answer, inductionHypothesis fitsRest]

/-! ## Schedules -/

theorem run_limit (decoder : Decoder) (moves : List Move) :
    (decoder.run moves).2.limit = decoder.limit := by
  induction moves generalizing decoder with
  | nil => rfl
  | cons move moves inductionHypothesis =>
      cases move with
      | push octets => exact inductionHypothesis (decoder.push octets)
      | pull =>
          rw [run, inductionHypothesis]
          rcases pull_cases decoder with ⟨_, same⟩ | ⟨frame, after, answer, taken⟩ | ⟨_, _, same⟩
          · rw [same]
          · rw [taken, next_limit answer]
          · rw [same]

/-- No octet is lost: those that came are the frames given and what the reader holds. -/
theorem run_conserves (decoder : Decoder) (moves : List Move) :
    (framesOf (decoder.run moves).1).flatMap Frame.wrap ++ (decoder.run moves).2.pending =
      decoder.pending ++ Move.pushed moves := by
  induction moves generalizing decoder with
  | nil => simp [run, framesOf, Move.pushed]
  | cons move moves inductionHypothesis =>
      cases move with
      | push octets =>
          rw [run, inductionHypothesis, Move.pushed]
          simp [push]
      | pull =>
          rw [run, Move.pushed]
          rcases pull_cases decoder with ⟨_, same⟩ | ⟨frame, after, answer, taken⟩ | ⟨_, _, same⟩
          · rw [same, framesOf, inductionHypothesis]
          · obtain ⟨_, _, _, shape⟩ := next_eq_frame_iff.mp answer
            rw [taken, framesOf, List.flatMap_cons, List.append_assoc, inductionHypothesis, shape,
              List.append_assoc]
          · rw [same, framesOf, inductionHypothesis]

/-- A schedule postpones reading, but does not change what is read. -/
theorem drain_pushed (decoder : Decoder) (moves : List Move) :
    (decoder.push (Move.pushed moves)).drain =
      ⟨framesOf (decoder.run moves).1 ++ (decoder.run moves).2.drain.frames,
        (decoder.run moves).2.drain.failure, (decoder.run moves).2.drain.left⟩ := by
  induction moves generalizing decoder with
  | nil => simp [run, framesOf, Move.pushed, push]
  | cons move moves inductionHypothesis =>
      cases move with
      | push octets => rw [run, Move.pushed, ← push_push, inductionHypothesis]
      | pull =>
          rw [run, Move.pushed]
          rcases pull_cases decoder with ⟨_, same⟩ | ⟨frame, after, answer, taken⟩ | ⟨_, _, same⟩
          · rw [same, framesOf, inductionHypothesis]
          · rw [taken, framesOf, drain_of_frame (next_push_of_frame answer _),
              inductionHypothesis]
            rfl
          · rw [same, framesOf, inductionHypothesis]

/-- A failure is final, whatever comes and however often a frame is asked for. -/
theorem eq_error_of_mem_run {decoder : Decoder} {error : Error}
    (failed : decoder.next = .error error) {moves : List Move} {answer : Answer}
    (member : answer ∈ (decoder.run moves).1) :
    answer = .error error := by
  induction moves generalizing decoder with
  | nil => cases member
  | cons move moves inductionHypothesis =>
      cases move with
      | push octets => exact inductionHypothesis (next_push_of_error failed octets) member
      | pull =>
          rw [run, pull_of_error failed] at member
          rcases List.mem_cons.mp member with rfl | later
          · rfl
          · exact inductionHypothesis failed later

/-! ## The end of the octets -/

theorem finish_eq_ok_iff {decoder : Decoder} :
    decoder.finish = .ok () ↔ decoder.pending = [] := by
  unfold finish
  split
  · rename_i flags length rest found
    have size := length_of_header? found
    simp only [reduceCtorEq, false_iff]
    intro empty
    rw [empty, headerLength, List.length_nil] at size
    omega
  · split <;> simp_all

theorem finish_eq_incompleteHeader_iff {decoder : Decoder} {actual : Nat} :
    decoder.finish = .error (.incompleteHeader actual) ↔
      decoder.pending ≠ [] ∧ decoder.pending.length < headerLength ∧
        actual = decoder.pending.length := by
  unfold finish
  split
  · rename_i flags length rest found
    have size := length_of_header? found
    simp only [Except.error.injEq, reduceCtorEq, false_iff, not_and]
    omega
  · rename_i short
    have isShort := header?_eq_none_iff.mp short
    split
    · rename_i empty
      simp only [reduceCtorEq, false_iff, not_and]
      intro nonempty
      exact absurd (List.isEmpty_iff.mp empty) nonempty
    · rename_i nonempty
      constructor
      · intro found
        cases found
        exact ⟨fun empty => nonempty (List.isEmpty_iff.mpr empty), isShort, rfl⟩
      · rintro ⟨_, _, rfl⟩
        rfl

/-- Octets that hold no frame and begin with a header end inside a payload. -/
theorem finish_of_cut {decoder : Decoder} (answer : decoder.next = .ok (none, decoder))
    (long : headerLength ≤ decoder.pending.length) :
    ∃ expected actual, actual < expected ∧ decoder.Announces expected ∧
      decoder.finish = .error (.incompletePayload expected actual) := by
  obtain ⟨_, short | ⟨flags, length, rest, found, _, missing⟩⟩ := next_eq_none_iff.mp answer
  · omega
  · refine ⟨length, rest.length, missing, ⟨flags, rest, found⟩, ?_⟩
    rw [finish, found]

/-- A reader that has nothing to give holds less than a header and a payload. -/
theorem length_lt_of_waiting {decoder : Decoder} (answer : decoder.next = .ok (none, decoder)) :
    decoder.pending.length < headerLength + decoder.limit := by
  obtain ⟨_, short | ⟨flags, length, rest, found, admitted, missing⟩⟩ :=
    next_eq_none_iff.mp answer
  · omega
  · rw [length_of_header? found]
    omega

/-- What holds of a reader at any moment: `came` are the octets that came, and `frames` the frames
that were given, since the reader was started with a limit. -/
structure IsFaithful (limit : Nat) (came : Bytes) (frames : List Frame) (decoder : Decoder) :
    Prop where
  /-- The written frames and the octets held are the octets that came. -/
  conserves : frames.flatMap Frame.wrap ++ decoder.pending = came
  /-- Whatever still comes, the frames are those of all octets at once, and so is the failure. -/
  independent : ∀ later,
    (({ limit } : Decoder).push (came ++ later)).drain.frames =
        frames ++ (decoder.push later).drain.frames ∧
      (({ limit } : Decoder).push (came ++ later)).drain.failure =
        (decoder.push later).drain.failure
  /-- Asking fails exactly if the octets held begin with a header that announces too much. -/
  fails_iff : ∀ error, decoder.pull.1 = .error error ↔
    ∃ size, decoder.Announces size ∧ limit < size ∧ error = .messageTooLarge size limit
  /-- A failure changes nothing, is the end of the frames, and is given ever after. -/
  fails : ∀ error, decoder.pull.1 = .error error →
    decoder.pull.2 = decoder ∧
      (({ limit } : Decoder).push came).drain.frames = frames ∧
      (({ limit } : Decoder).push came).drain.failure = some error ∧
      ∀ further, ∀ answer ∈ (decoder.run further).1, answer = .error error
  /-- When there is nothing yet, all frames were given, and few octets are held. -/
  waits : decoder.pull.1 = .ok none →
    decoder.pull.2 = decoder ∧
      (({ limit } : Decoder).push came).drain.frames = frames ∧
      (({ limit } : Decoder).push came).drain.failure = none ∧
      decoder.pending.length < headerLength + limit
  /-- When there is nothing yet, the octets held tell how the last frame is cut off. -/
  finishes : decoder.pull.1 = .ok none →
    (decoder.finish = .ok () ↔ decoder.pending = []) ∧
      (∀ actual, decoder.finish = .error (.incompleteHeader actual) ↔
        1 ≤ decoder.pending.length ∧ decoder.pending.length ≤ 4 ∧
          actual = decoder.pending.length) ∧
      (5 ≤ decoder.pending.length → ∃ expected actual, actual < expected ∧
        decoder.finish = .error (.incompletePayload expected actual))
  /-- Written frames that the reader takes come back as they were, and leave nothing behind. -/
  restores : ∀ sent later,
    (∀ frame ∈ sent, frame.payload.length ≤ limit ∧ frame.payload.length < Bytes.wordBound) →
      came ++ later = sent.flatMap Frame.wrap →
        frames <+: sent ∧ (∀ error, decoder.pull.1 ≠ .error error) ∧
          (later = [] → decoder.pull.1 = .ok none → frames = sent ∧ decoder.finish = .ok ())

namespace IsFaithful

variable {limit : Nat} {came : Bytes} {frames : List Frame} {decoder : Decoder}

private theorem restores_of_independent
    (conserves : frames.flatMap Frame.wrap ++ decoder.pending = came) {later : Bytes}
    (independent :
      (({ limit } : Decoder).push (came ++ later)).drain.frames =
          frames ++ (decoder.push later).drain.frames ∧
        (({ limit } : Decoder).push (came ++ later)).drain.failure =
          (decoder.push later).drain.failure)
    {sent : List Frame}
    (fits : ∀ frame ∈ sent, frame.payload.length ≤ limit ∧ frame.payload.length < Bytes.wordBound)
    (shape : came ++ later = sent.flatMap Frame.wrap) :
    frames <+: sent ∧ (∀ error, decoder.pull.1 ≠ .error error) ∧
      (later = [] → decoder.pull.1 = .ok none → frames = sent ∧ decoder.finish = .ok ()) := by
  obtain ⟨allFrames, allFailure⟩ := independent
  have written := drain_written limit sent fits
  rw [← shape] at written
  have whole : (({ limit } : Decoder).push (came ++ later)).drain = ⟨sent, none, { limit }⟩ := by
    simpa [push] using written
  rw [whole] at allFrames allFailure
  change sent = _ at allFrames
  refine ⟨⟨_, allFrames.symm⟩, ?_, ?_⟩
  · intro error asked
    have failed := next_push_of_error (pull_fst_eq_error_iff.mp asked) later
    rw [drain_of_error failed] at allFailure
    cases allFailure
  · rintro rfl asked
    have answer := pull_fst_eq_none_iff.mp asked
    rw [push_nil, drain_of_none answer, List.append_nil] at allFrames
    refine ⟨allFrames.symm, finish_eq_ok_iff.mpr ?_⟩
    rw [List.append_nil, ← conserves, ← allFrames] at shape
    exact List.append_right_eq_self.mp shape

/-- Everything follows from the limit, from the octets being kept, and from reading being
postponed only. -/
private theorem of_independent (sameLimit : decoder.limit = limit)
    (conserves : frames.flatMap Frame.wrap ++ decoder.pending = came)
    (independent : ∀ later,
      (({ limit } : Decoder).push (came ++ later)).drain.frames =
          frames ++ (decoder.push later).drain.frames ∧
        (({ limit } : Decoder).push (came ++ later)).drain.failure =
          (decoder.push later).drain.failure) :
    IsFaithful limit came frames decoder where
  conserves := conserves
  independent := independent
  fails_iff error := by
    rw [pull_fst_eq_error_iff, next_eq_error_iff, sameLimit]
  fails error asked := by
    have failed := pull_fst_eq_error_iff.mp asked
    have atOnce := independent []
    rw [List.append_nil, push_nil, drain_of_error failed, List.append_nil] at atOnce
    rw [pull_of_error failed]
    exact ⟨rfl, atOnce.1, atOnce.2, fun _ _ member => eq_error_of_mem_run failed member⟩
  waits asked := by
    have answer := pull_fst_eq_none_iff.mp asked
    have atOnce := independent []
    rw [List.append_nil, push_nil, drain_of_none answer, List.append_nil] at atOnce
    rw [pull_of_none answer, ← sameLimit]
    exact ⟨rfl, sameLimit ▸ atOnce.1, sameLimit ▸ atOnce.2, length_lt_of_waiting answer⟩
  finishes asked := by
    have answer := pull_fst_eq_none_iff.mp asked
    refine ⟨finish_eq_ok_iff, fun actual => ?_, fun long => ?_⟩
    · rw [finish_eq_incompleteHeader_iff, ← List.length_pos_iff, headerLength]
      omega
    · obtain ⟨expected, actual, missing, _, ending⟩ := finish_of_cut answer long
      exact ⟨expected, actual, missing, ending⟩
  restores _ later fits shape := restores_of_independent conserves (independent later) fits shape

end IsFaithful

/-- Under every schedule, at every moment, a reader is faithful to the octets that came. -/
theorem run_isFaithful (limit : Nat) (moves : List Move) :
    IsFaithful limit (Move.pushed moves) (framesOf (({ limit } : Decoder).run moves).1)
      (({ limit } : Decoder).run moves).2 := by
  have kept := run_conserves { limit } moves
  rw [List.nil_append] at kept
  refine IsFaithful.of_independent (run_limit { limit } moves) kept fun later => ?_
  rw [← push_push, drain_push, drain_pushed, drain_push (({ limit } : Decoder).run moves).2]
  exact ⟨by simp only [List.append_assoc], rfl⟩

end Decoder

end RpcEcho.Envelope
