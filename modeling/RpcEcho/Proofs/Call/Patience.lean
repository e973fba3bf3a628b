import RpcEcho.Proofs.Call.Delivery

/-!
# Calls with a patient caller

A caller is patient if it only reads, and nothing else but the clock and the task moves. What a task
puts in then depends on the number of its steps alone: `Streaming.account_run` lifts an account of
single steps to runs, and `Streaming.Accounts` says what the caller has of it.
-/

namespace RpcEcho

/-! ## Moves of a patient caller -/

namespace Move

variable {ι : Type}

/-- Whether a move is a step of the task. -/
def isGo : Move ι → Bool
  | go => true
  | _ => false

/-- Whether a move neither ends the call nor brings anything in: one of the task, of the clock, or
of a caller that reads. -/
def isPatient : Move ι → Bool
  | go | pass _ | read => true
  | cancel | drain | bring _ _ | drop => false

end Move

namespace Exchange

/-- What a patient move makes of an exchange. -/
structure Patient (before after : Exchange) : Prop where
  wire : after.wire = before.wire
  cancellation : after.cancellation = before.cancellation
  drainAt : after.drainAt = before.drainAt
  later : before.now ≤ after.now
  stays : before.outbound.isGone = false → after.outbound.isGone = false

/-- Nothing has ended the call or will, and its caller is there. -/
structure IsOpen (exchange : Exchange) : Prop where
  deadline : exchange.cancellation.deadline = none
  notCancelled : exchange.cancellation.cancelledAt = none
  notDraining : exchange.drainAt = none
  stays : exchange.outbound.isGone = false

/-- The call is cancelled, and its caller is there. -/
structure IsCancelled (exchange : Exchange) : Prop where
  cancelled : Cancellation.hasCome exchange.cancellation.cancelledAt exchange.now = true
  stays : exchange.outbound.isGone = false

/-- The server drains, which has cancelled the call, and its caller is there. -/
structure IsDraining (exchange : Exchange) : Prop where
  cancelled : Cancellation.hasCome exchange.cancellation.cancelledAt exchange.now = true
  draining : Cancellation.hasCome exchange.drainAt exchange.now = true
  stays : exchange.outbound.isGone = false

variable {exchange after : Exchange}

theorem IsOpen.done? (isOpen : exchange.IsOpen) : exchange.done? = none := by
  simp [Exchange.done?, Cancellation.check, Cancellation.hasCome, isOpen.deadline,
    isOpen.notCancelled]

theorem IsCancelled.done? (isCancelled : exchange.IsCancelled) :
    exchange.done? = some .canceled := by
  simp [Exchange.done?, Cancellation.check, isCancelled.cancelled]

theorem IsDraining.isCancelled (draining : exchange.IsDraining) : exchange.IsCancelled :=
  ⟨draining.cancelled, draining.stays⟩

theorem IsDraining.done? (draining : exchange.IsDraining) : exchange.done? = some .canceled :=
  draining.isCancelled.done?

theorem IsOpen.of_patient (isOpen : exchange.IsOpen) (patient : exchange.Patient after) :
    after.IsOpen :=
  ⟨patient.cancellation ▸ isOpen.deadline, patient.cancellation ▸ isOpen.notCancelled,
    patient.drainAt ▸ isOpen.notDraining, patient.stays isOpen.stays⟩

theorem IsCancelled.of_patient (isCancelled : exchange.IsCancelled)
    (patient : exchange.Patient after) : after.IsCancelled := by
  refine ⟨?_, patient.stays isCancelled.stays⟩
  rw [patient.cancellation]
  exact Cancellation.hasCome_of_le patient.later isCancelled.cancelled

theorem IsDraining.of_patient (draining : exchange.IsDraining)
    (patient : exchange.Patient after) : after.IsDraining := by
  refine ⟨(draining.isCancelled.of_patient patient).cancelled, ?_, patient.stays draining.stays⟩
  rw [patient.drainAt]
  exact Cancellation.hasCome_of_le patient.later draining.draining

theorem IsOpen.cancel (isOpen : exchange.IsOpen) :
    (exchange.cancelAt exchange.now).IsCancelled := by
  refine ⟨?_, isOpen.stays⟩
  simp [cancelAt, Cancellation.cancelBy, Cancellation.noLater, isOpen.notCancelled,
    Cancellation.hasCome]

theorem IsOpen.drain (isOpen : exchange.IsOpen) :
    { exchange.cancelAt exchange.now with drainAt := some exchange.now }.IsDraining := by
  refine ⟨isOpen.cancel.cancelled, ?_, isOpen.stays⟩
  simp [cancelAt, Cancellation.hasCome]

/-- A call of a kind that is answered in a format. -/
def InFormat (exchange : Exchange) (kind : Exchange → Prop) (wire : WireFormat) : Prop :=
  kind exchange ∧ exchange.wire = wire

theorem InFormat.of_patient {kind : Exchange → Prop}
    (lasts : ∀ {before after : Exchange}, kind before → before.Patient after → kind after)
    {wire : WireFormat} {before after : Exchange} (isKind : before.InFormat kind wire)
    (patient : before.Patient after) : after.InFormat kind wire :=
  ⟨lasts isKind.1 patient, patient.wire.trans isKind.2⟩

end Exchange

namespace Outbound

theorem stays_actAs {outbound : Outbound} (stays : outbound.isGone = false) (time : Nat) :
    (outbound.actAs (.reading time)).isGone = false := by
  rw [actAs, stays, if_neg Bool.false_ne_true]
  have reads : ({ outbound with state := .reading time } : Outbound).state = .reading time := rfl
  exact (act_of_reading reads).2.1

theorem endedAt_actAs_of_ended {outbound : Outbound} (ended : outbound.endedAt.isSome)
    (state : CallerState) : (outbound.actAs state).endedAt.isSome := by
  unfold actAs
  split
  · exact ended
  · unfold act
    split
    case h_2 => split <;> first | rfl | exact ended
    all_goals exact ended

theorem actAs_of_closed {outbound : Outbound} (closed : outbound.closed = true)
    (stays : outbound.isGone = false) (time : Nat) :
    (outbound.actAs (.reading time)).endedAt.isSome ∨
      (outbound.actAs (.reading time)).queue.length + 1 = outbound.queue.length := by
  rw [actAs, stays, if_neg Bool.false_ne_true]
  cases queue : outbound.queue with
  | nil =>
      left
      simp [act, closed]
  | cons frame rest =>
      right
      simp [act]

end Outbound

namespace Streaming

variable {ι ο : Type} [Payload ο] {call : Streaming ι ο}

theorem patient_step {move : Move ι} (isPatient : move.isPatient = true) :
    call.exchange.Patient (call.step move).exchange := by
  cases move with
  | go =>
      obtain ⟨outbound, same, sameGone⟩ := exchange_go call
      change call.exchange.Patient call.go.exchange
      rw [same]
      exact ⟨rfl, rfl, rfl, Nat.le_refl _, fun stays => sameGone.trans stays⟩
  | pass millis => exact ⟨rfl, rfl, rfl, Nat.le_add_right _ _, id⟩
  | read =>
      exact ⟨rfl, rfl, rfl, Nat.le_refl _, fun stays => Outbound.stays_actAs stays _⟩
  | cancel | drain | bring _ _ | drop => cases isPatient

/-- All frames of a call so far. -/
abbrev contents (call : Streaming ι ο) : List ResponseFrame := call.exchange.outbound.contents

theorem stage_step {move : Move ι} (isPatient : move.isPatient = true)
    (isNotGo : move.isGo = false) :
    (call.step move).stage = call.stage ∧ (call.step move).contents = call.contents := by
  cases move with
  | go => cases isNotGo
  | pass millis => exact ⟨rfl, rfl⟩
  | read => exact ⟨rfl, Outbound.contents_actAs _ _⟩
  | cancel | drain | bring _ _ | drop => cases isPatient

/-- An account of where the task stands and of what has been put in, by the number of steps that the
task still has to take: if each step takes one off, then a run takes off as many as it has. -/
theorem account_run {kind : Exchange → Prop}
    (lasts : ∀ {before after : Exchange}, kind before → before.Patient after → kind after)
    {account : Nat → Stage ι ο → List ResponseFrame → Prop}
    (goes : ∀ {call : Streaming ι ο} {steps : Nat}, kind call.exchange →
      account steps call.stage call.contents →
      account (steps - 1) call.go.stage call.go.contents)
    {steps : Nat} (isKind : kind call.exchange)
    (start : account steps call.stage call.contents) (moves : List (Move ι))
    (patient : ∀ move ∈ moves, move.isPatient = true) :
    kind (call.run moves).exchange ∧
      account (steps - moves.countP Move.isGo) (call.run moves).stage
        (call.run moves).contents := by
  induction moves generalizing call steps with
  | nil => exact ⟨isKind, start⟩
  | cons move moves inductionHypothesis =>
      have isPatient := patient move List.mem_cons_self
      have patientThen := fun other member => patient other (List.mem_cons_of_mem move member)
      have kindThen := lasts isKind (patient_step isPatient)
      cases isGo : move.isGo with
      | false =>
          obtain ⟨sameStage, sameContents⟩ := @stage_step _ _ _ call _ isPatient isGo
          have startThen : account steps (call.step move).stage (call.step move).contents := by
            rwa [sameStage, sameContents]
          rw [List.countP_cons_of_neg (by simp [isGo])]
          exact inductionHypothesis kindThen startThen patientThen
      | true =>
          obtain ⟨⟩ : move = .go := by cases move <;> first | rfl | cases isGo
          rw [List.countP_cons_of_pos isGo, Nat.add_comm, ← Nat.sub_sub]
          exact inductionHypothesis kindThen (goes isKind start) patientThen

/-- What holds of where the task stands and of what has been put in, if each step of the task keeps
it. -/
theorem invariant_run {kind : Exchange → Prop}
    (lasts : ∀ {before after : Exchange}, kind before → before.Patient after → kind after)
    {invariant : Stage ι ο → List ResponseFrame → Prop}
    (goes : ∀ {call : Streaming ι ο}, kind call.exchange → invariant call.stage call.contents →
      invariant call.go.stage call.go.contents)
    (isKind : kind call.exchange) (start : invariant call.stage call.contents)
    (moves : List (Move ι)) (patient : ∀ move ∈ moves, move.isPatient = true) :
    kind (call.run moves).exchange ∧
      invariant (call.run moves).stage (call.run moves).contents :=
  @account_run _ _ _ call kind lasts (fun _ => invariant) (fun isKind holds => goes isKind holds) 0
    isKind start moves patient

omit [Payload ο] in
/-- A call that has put in less than sixteen frames has room for one more. -/
theorem hasRoom_of_few (few : call.contents.length < Outbound.capacity) :
    call.exchange.outbound.hasRoom = true := by
  simp only [contents, Outbound.contents, List.length_append] at few
  simp only [Outbound.hasRoom, decide_eq_true_eq]
  omega

omit [Payload ο] in
theorem offer_of_few (stays : call.exchange.outbound.isGone = false)
    (few : call.contents.length < Outbound.capacity) (frame : ResponseFrame) :
    call.exchange.offer frame = some (call.exchange.put frame, .ok ()) :=
  Exchange.offer_of_room stays (hasRoom_of_few few) frame

omit [Payload ο] in
theorem contents_put (call : Streaming ι ο) (frame : ResponseFrame) :
    (call.exchange.put frame).outbound.contents = call.contents ++ [frame] :=
  Outbound.contents_push _ _ _

theorem endedAt_of_reads {reads : Nat} (closed : call.exchange.outbound.closed = true)
    (stays : call.exchange.outbound.isGone = false)
    (enough : call.exchange.outbound.endedAt.isSome ∨
      call.exchange.outbound.queue.length < reads) :
    (call.run (List.replicate reads .read)).exchange.outbound.endedAt.isSome := by
  induction reads generalizing call with
  | zero => exact enough.resolve_right (Nat.not_lt_zero _)
  | succ reads inductionHypothesis =>
      have closedThen : (call.step .read).exchange.outbound.closed = true :=
        (Outbound.closed_actAs _ _).trans closed
      have staysThen : (call.step .read).exchange.outbound.isGone = false :=
        Outbound.stays_actAs stays _
      refine inductionHypothesis closedThen staysThen ?_
      rcases enough with ended | few
      · exact .inl (Outbound.endedAt_actAs_of_ended ended _)
      · refine (Outbound.actAs_of_closed closed stays call.exchange.now).imp_right fun taken => ?_
        change (call.exchange.outbound.actAs _).queue.length < reads
        omega

/-- The last steps of a task: its handler returns, the last frame is put in, and the response is
closed. -/
inductive Ends (wire : WireFormat) (said : List ResponseFrame) (outcome : Outcome) :
    Nat → Stage ι ο → List ResponseFrame → Prop
  | finishing : Ends wire said outcome 3 (.going (.finish outcome)) said
  | ending : Ends wire said outcome 2 (.ending outcome) said
  | closing : Ends wire said outcome 1 .closing (said ++ [.endOfStream wire outcome])
  | ended : Ends wire said outcome 0 .ended (said ++ [.endOfStream wire outcome])

omit [Payload ο] in
theorem Ends.returned {wire : WireFormat} {said frames : List ResponseFrame} {outcome : Outcome}
    {steps : Nat} {stage : Stage ι ο} (atMost : steps ≤ 2)
    (ends : Ends wire said outcome steps stage frames) :
    (∃ outcome, stage = .ending outcome) ∨ stage = .closing ∨ stage = .ended := by
  cases ends with
  | finishing => omega
  | ending => exact .inl ⟨_, rfl⟩
  | closing => exact .inr (.inl rfl)
  | ended => exact .inr (.inr rfl)

/-- A step of the last ones is done, unless the last frame finds no room. -/
theorem Ends.go_cases {wire : WireFormat} {said : List ResponseFrame} {outcome : Outcome}
    {steps : Nat} (sameWire : call.exchange.wire = wire)
    (stays : call.exchange.outbound.isGone = false)
    (ends : Ends wire said outcome steps call.stage call.contents) :
    Ends wire said outcome (steps - 1) call.go.stage call.go.contents ∨
      (steps = 2 ∧ call.contents = said ∧ call.exchange.outbound.hasRoom = false) ∧
        Ends wire said outcome steps call.go.stage call.go.contents := by
  generalize stage : call.stage = current at ends
  generalize put : call.contents = frames at ends
  unfold Streaming.go
  cases ends with
  | finishing =>
      rw [stage]
      exact .inl (put ▸ .ending)
  | ending =>
      rw [stage, sameWire]
      dsimp only
      rcases call.exchange.offer_cases (.endOfStream wire outcome) with
        ⟨isGone, _⟩ | ⟨_, _, offer⟩ | ⟨_, full, offer⟩
      · exact absurd (stays.symm.trans isGone) Bool.false_ne_true
      · left
        rw [offer]
        change Ends wire said outcome 1 .closing (call.exchange.put _).outbound.contents
        rw [contents_put, put]
        exact .closing
      · right
        rw [offer]
        refine ⟨⟨rfl, rfl, full⟩, ?_⟩
        simp only [stage, put]
        exact .ending
  | closing =>
      left
      rw [stage]
      change Ends wire said outcome 0 .ended (call.exchange.outbound.close _).contents
      rw [Outbound.contents_close]
      change Ends wire said outcome 0 .ended call.contents
      rw [put]
      exact .ended
  | ended =>
      left
      simp only [stage, put]
      exact .ended

theorem Ends.go {wire : WireFormat} {said : List ResponseFrame} {outcome : Outcome} {steps : Nat}
    (sameWire : call.exchange.wire = wire) (stays : call.exchange.outbound.isGone = false)
    (few : said.length < Outbound.capacity)
    (ends : Ends wire said outcome steps call.stage call.contents) :
    Ends wire said outcome (steps - 1) call.go.stage call.go.contents := by
  refine (ends.go_cases sameWire stays).resolve_right fun ⟨⟨_, put, full⟩, _⟩ => ?_
  rw [hasRoom_of_few (put ▸ few)] at full
  cases full

/-- What an account says of a response: what was put in is the front of it, all of it when the task
is done, and the task is done when no step is left. -/
structure Accounts (response : List ResponseFrame) (steps : Nat) (stage : Stage ι ο)
    (frames : List ResponseFrame) : Prop where
  isFront : frames <+: response
  isWhole : stage = .closing ∨ stage = .ended → frames = response
  isDone : steps = 0 → stage = .ended

omit [Payload ο] in
theorem Accounts.mono {response frames : List ResponseFrame} {fewer steps : Nat}
    {stage : Stage ι ο} (order : fewer ≤ steps) (accounts : Accounts response fewer stage frames) :
    Accounts response steps stage frames :=
  ⟨accounts.isFront, accounts.isWhole, fun none => accounts.isDone (by omega)⟩

omit [Payload ο] in
theorem Ends.accounts {wire : WireFormat} {said frames : List ResponseFrame} {outcome : Outcome}
    {steps : Nat} {stage : Stage ι ο} (ends : Ends wire said outcome steps stage frames) :
    Accounts (said ++ [.endOfStream wire outcome]) steps stage frames := by
  cases ends with
  | finishing => exact ⟨List.prefix_append _ _, by simp, by simp⟩
  | ending => exact ⟨List.prefix_append _ _, by simp, by simp⟩
  | closing => exact ⟨List.prefix_rfl, fun _ => rfl, by simp⟩
  | ended => exact ⟨List.prefix_rfl, fun _ => rfl, fun _ => rfl⟩

omit [Payload ο] in
theorem Ends.isFront {wire : WireFormat} {said frames : List ResponseFrame} {outcome : Outcome}
    {steps : Nat} {stage : Stage ι ο} (ends : Ends wire said outcome steps stage frames) :
    said <+: frames := by
  cases ends with
  | finishing | ending => exact List.prefix_rfl
  | closing | ended => exact List.prefix_append _ _

/-- What the caller has of a response: the front of it, and all of it at the end of the body. -/
theorem Orderly.received_of_accounts {response : List ResponseFrame} {steps : Nat}
    (orderly : call.Orderly) (accounts : Accounts response steps call.stage call.contents) :
    call.exchange.outbound.received <+: response ∧
      (call.exchange.outbound.endedAt.isSome → call.exchange.outbound.received = response) := by
  refine ⟨(List.prefix_append _ _).trans accounts.isFront, fun ends => ?_⟩
  obtain ⟨empty, isPlaced⟩ := orderly.ended ends
  have whole := accounts.isWhole (orderly.stage_of_placed isPlaced)
  rwa [Streaming.contents, Outbound.contents, empty, List.append_nil] at whole

/-- A task that is done leaves a response whose end the caller meets. -/
theorem Orderly.endedAt_of_accounts {response : List ResponseFrame} (orderly : call.Orderly)
    (accounts : Accounts response 0 call.stage call.contents)
    (stays : call.exchange.outbound.isGone = false) {reads : Nat}
    (enough : response.length < reads) :
    (call.run (List.replicate reads .read)).exchange.outbound.endedAt.isSome := by
  refine endedAt_of_reads (orderly.closes (accounts.isDone rfl)) stays (.inr ?_)
  have length := accounts.isFront.length_le
  simp only [Streaming.contents, Outbound.contents, List.length_append] at length
  omega

theorem stays_go (stays : call.exchange.outbound.isGone = false) :
    call.go.exchange.outbound.isGone = false :=
  (@patient_step _ _ _ call .go rfl).stays stays

theorem stage_go_of_closing (closing : call.stage = .closing) : call.go.stage = .ended := by
  rw [Streaming.go, closing]

theorem stage_go_of_ended (ended : call.stage = .ended) : call.go.stage = .ended := by
  rw [Streaming.go, ended]
  exact ended

/-- A task whose handler has returned needs nothing but a caller that reads on. -/
theorem Orderly.endedAt_of_returned (orderly : call.Orderly)
    (stays : call.exchange.outbound.isGone = false)
    (returned : (∃ outcome, call.stage = .ending outcome) ∨ call.stage = .closing ∨
      call.stage = .ended) :
    let last := call.run (.read :: .go :: .go :: List.replicate 17 .read)
    last.exchange.outbound.endedAt.isSome := by
  intro whole
  let last := call.run [.read, .go, .go]
  have isEnded : last.stage = .ended := by
    change (call.step .read).go.go.stage = .ended
    rcases returned with ⟨outcome, ending⟩ | closing | ended
    · have staysEnding : (call.step .read).stage = .ending outcome := ending
      refine stage_go_of_closing ?_
      rw [Streaming.go, staysEnding]
      dsimp only
      rw [orderly.offer_of_read stays]
    · exact stage_go_of_ended (stage_go_of_closing closing)
    · exact stage_go_of_ended (stage_go_of_ended ended)
  have orderlyThen : last.Orderly := orderly.run _
  have staysThen : last.exchange.outbound.isGone = false :=
    stays_go (stays_go (Outbound.stays_actAs stays _))
  exact endedAt_of_reads (orderlyThen.closes isEnded) staysThen
    (.inr (Nat.lt_succ_of_le orderlyThen.room))

end Streaming

end RpcEcho
