import RpcEcho.Proofs.Call.Waiting
import RpcEcho.Proofs.Response.Outbound

/-!
# Calls with a steady caller

A steady caller wants every frame, at whatever pace. It may let the queue fill up, but it waits only
for an empty queue, so every frame of a call that nothing ends goes in sooner or later, and behind
the last frame the caller has all of them. When a frame is taken is left open here.
-/

namespace RpcEcho

/-! ## The caller -/

namespace Outbound

/-- Frames on their way to a steady caller: those that it has and those in the queue are the given
ones. -/
structure IsSteady (outbound : Outbound) (sent : List ResponseFrame) : Prop where
  stays : outbound.Stays
  state : (∃ time, outbound.state = .reading time) ∨
    outbound.state = .waiting ∧ outbound.queue = []
  room : outbound.queue.length ≤ capacity
  sent : outbound.contents = sent
  notEnded : outbound.endedAt = none

theorem isSteady_start {caller : Caller} (wantsAll : caller.limit = none) (now : Nat) :
    (start caller now).IsSteady [] := by
  have reads : (start caller now).state = .reading (now + caller.pace) := by
    simp [start, Caller.next, wantsAll]
  refine ⟨⟨rfl, wantsAll, rfl, fun time leaving => ?_⟩, .inl ⟨_, reads⟩, Nat.zero_le _, rfl,
    rfl⟩
  cases reads.symm.trans leaving

variable {outbound : Outbound} {sent : List ResponseFrame}

theorem IsSteady.isGone (steady : outbound.IsSteady sent) : outbound.isGone = false := by
  rcases steady.state with ⟨time, reads⟩ | ⟨waits, _⟩
  · simp [Outbound.isGone, reads]
  · simp [Outbound.isGone, waits]

theorem IsSteady.act (steady : outbound.IsSteady sent) : outbound.act.IsSteady sent := by
  have notEnded : outbound.act.endedAt = none := by
    refine Option.not_isSome_iff_eq_none.mp fun ends => ?_
    rcases endedAt_act _ ends with ended | ⟨closed, _⟩
    · rw [steady.notEnded] at ended
      cases ended
    · cases steady.stays.notClosed.symm.trans closed
  refine ⟨steady.stays.act, ?_, Nat.le_trans (length_queue_act _) steady.room,
    (contents_act _).trans steady.sent, notEnded⟩
  rcases steady.state with ⟨time, reads⟩ | ⟨waits, empty⟩
  · obtain ⟨_, stays, _, waitsForAll⟩ := act_of_reading reads
    cases state : outbound.act.state with
    | reading next => exact .inl ⟨next, rfl⟩
    | waiting => exact .inr ⟨rfl, waitsForAll state⟩
    | leaving next => exact absurd state (steady.stays.act.notLeaving next)
    | gone => simp [Outbound.isGone, state] at stays
  · right
    simp [Outbound.act, waits, empty]

theorem IsSteady.advance (steady : outbound.IsSteady sent) (limit : Option Nat) :
    (outbound.advance limit).IsSteady sent := by
  fun_induction Outbound.advance limit outbound with
  | case1 outbound idle => exact steady
  | case2 outbound time due isBy inductionHypothesis => exact inductionHypothesis steady.act
  | case3 outbound time due isLater => exact steady

theorem IsSteady.goesOn {after : Outbound} (steady : outbound.IsSteady sent)
    (goesOn : outbound.GoesOn after) : after.IsSteady sent := by
  have advances (between : Outbound) (limit : Option Nat) (steady : between.IsSteady sent) :=
    steady.advance limit
  exact goesOn.keeps advances steady

/-- In the end a steady caller has taken all frames of a response that goes on. -/
theorem IsSteady.received (steady : outbound.IsSteady sent) :
    (outbound.advance none).received = sent := by
  suffices empty : (outbound.advance none).queue = [] by
    rw [← (steady.advance none).sent, contents, empty, List.append_nil]
  fun_induction Outbound.advance none outbound with
  | case1 outbound idle =>
      rcases steady.state with ⟨time, reads⟩ | ⟨_, empty⟩
      · cases idle.symm.trans (due_eq_some_iff.mpr (.inl reads))
      · exact empty
  | case2 outbound time due isBy inductionHypothesis => exact inductionHypothesis steady.act
  | case3 outbound time due isLater => exact absurd rfl isLater

theorem IsSteady.reads_of_full (steady : outbound.IsSteady sent)
    (full : ¬ outbound.hasRoom = true) : ∃ time, outbound.state = .reading time := by
  refine steady.state.resolve_right fun ⟨_, empty⟩ => full ?_
  simp [Outbound.hasRoom, empty, Outbound.capacity]

theorem IsSteady.push (steady : outbound.IsSteady sent) (hasRoom : outbound.hasRoom = true)
    (now : Nat) (frame : ResponseFrame) :
    (outbound.push now frame).IsSteady (sent ++ [frame]) := by
  obtain ⟨⟨notDropped, wantsAll, notClosed, notLeaving⟩, state, room, rfl, notEnded⟩ := steady
  have reads : ∃ time, (outbound.push now frame).state = .reading time := by
    rcases state with ⟨time, reads⟩ | ⟨waits, _⟩
    · exact ⟨time, by simp [Outbound.push, wake, reads]⟩
    · exact ⟨now, by simp [Outbound.push, wake, waits]⟩
  obtain ⟨time, reads⟩ := reads
  refine ⟨⟨?_, ?_, ?_, fun other leaving => ?_⟩, .inl ⟨time, reads⟩,
    length_queue_push _ hasRoom _ _, contents_push _ _ _, (endedAt_push _ _ _).trans notEnded⟩
  · rw [← notDropped, Outbound.push, wake]
    split <;> rfl
  · rw [← wantsAll, Outbound.push, wake]
    split <;> rfl
  · rw [closed_push, notClosed]
  · cases reads.symm.trans leaving

theorem advance_none_of_reading {time : Nat} (reads : outbound.state = .reading time) :
    outbound.advance none = outbound.act.advance none :=
  advance_of_due (due_eq_some_iff.mpr (.inl reads)) rfl

/-- When a response is closed, a caller that reads takes all frames of it, and meets its end. -/
theorem received_of_closed {caller : Caller} (wantsAll : caller.limit = none) (time : Nat)
    (queue : List ResponseFrame) (taken : List (ResponseFrame × Nat))
    (endedAt droppedAt : Option Nat) :
    let outbound : Outbound := ⟨caller, .reading time, queue, true, taken, endedAt, droppedAt⟩
    (outbound.advance none).received = outbound.contents ∧
      (outbound.advance none).endedAt.isSome := by
  intro outbound
  have acts : outbound.advance none = outbound.act.advance none := advance_none_of_reading rfl
  rw [acts, ← contents_act]
  induction queue generalizing caller time taken with
  | nil =>
      have leaves : outbound.act.state = .leaving (time + caller.lingering) := rfl
      rw [advance_of_leaving leaves rfl, act_of_leaving leaves]
      exact ⟨(List.append_nil _).symm, rfl⟩
  | cons frame rest inductionHypothesis =>
      have wantsMore : caller.took.limit = none := by simp [Caller.took, wantsAll]
      have reads : outbound.act =
          ⟨caller.took, .reading (time + caller.pace), rest, true, (frame, time) :: taken, endedAt,
            droppedAt⟩ := by
        change Outbound.mk caller.took (caller.took.next time) _ _ _ _ _ = _
        rw [Caller.next, wantsMore]
        rfl
      rw [reads, advance_none_of_reading rfl, ← contents_act]
      exact inductionHypothesis wantsMore _ _ (advance_none_of_reading rfl)

/-- Behind the last frame a steady caller has everything, and meets the end. -/
theorem IsSteady.close (steady : outbound.IsSteady sent) (now : Nat) :
    ((outbound.close now).advance none).received = sent ∧
      ((outbound.close now).advance none).endedAt.isSome := by
  obtain ⟨caller, state, queue, closed, taken, endedAt, droppedAt⟩ := outbound
  obtain ⟨⟨_, wantsAll, _, _⟩, stands, _, rfl, _⟩ := steady
  rcases stands with ⟨time, rfl⟩ | ⟨rfl, _⟩
  · exact received_of_closed wantsAll time queue taken endedAt droppedAt
  · exact received_of_closed wantsAll now queue taken endedAt droppedAt

end Outbound

/-! ## The call -/

namespace Exchange

/-- A call that nothing ends, whose caller is steady. -/
structure IsSteady (exchange : Exchange) (sent : List ResponseFrame) : Prop where
  outbound : exchange.outbound.IsSteady sent
  unending : exchange.cancellation = .never

variable {exchange : Exchange} {sent : List ResponseFrame}

theorem IsSteady.isOpenAt (steady : exchange.IsSteady sent) (time : Nat) :
    exchange.IsOpenAt time :=
  ⟨by rw [steady.unending]; rfl, steady.outbound.stays⟩

theorem IsSteady.done? (steady : exchange.IsSteady sent) : exchange.done? = none :=
  (steady.isOpenAt exchange.now).check

/-- A frame goes in as soon as there is room for it. -/
theorem IsSteady.sendFrame (steady : exchange.IsSteady sent) (frame : ResponseFrame) :
    ∃ now outbound, exchange.sendFrame frame =
        ({ exchange with now, outbound }, some (.ok ())) ∧ outbound.IsSteady (sent ++ [frame]) := by
  unfold Exchange.sendFrame
  rw [steady.done?]
  dsimp only
  rw [steady.outbound.isGone, if_neg Bool.false_ne_true]
  by_cases hasRoom : exchange.outbound.hasRoom = true
  · rw [if_pos hasRoom]
    exact ⟨_, _, rfl, steady.outbound.push hasRoom _ _⟩
  · obtain ⟨time, reads⟩ := steady.outbound.reads_of_full hasRoom
    rw [if_neg hasRoom, Outbound.nextTaking_eq_some_iff.mpr reads,
      wait_of_open (steady.isOpenAt _)]
    refine ⟨_, _, rfl, (steady.outbound.advance _).push ?_ _ _⟩
    exact Outbound.hasRoom_advance reads (decide_eq_true (Nat.le_max_right _ _))
      steady.outbound.room

/-! ## Calls that end somehow

Even if something ends the call, the last frame waits for room.
-/

theorem deliver_of_steady (steady : exchange.outbound.IsSteady sent) (frame : ResponseFrame) :
    ∃ now outbound, exchange.deliver frame = ({ exchange with now, outbound }, .ok ()) ∧
      outbound.IsSteady (sent ++ [frame]) := by
  unfold deliver
  rw [steady.isGone, if_neg Bool.false_ne_true]
  by_cases hasRoom : exchange.outbound.hasRoom = true
  · rw [if_pos hasRoom]
    exact ⟨_, _, rfl, steady.push hasRoom _ _⟩
  · obtain ⟨time, reads⟩ := steady.reads_of_full hasRoom
    have steadyThen := steady.advance (some (max exchange.now time))
    rw [if_neg hasRoom, Outbound.due_eq_some_iff.mpr (.inl reads), Option.getD_some]
    dsimp only
    rw [hear_of_stays steady.stays]
    dsimp only
    rw [steadyThen.isGone, if_neg Bool.false_ne_true]
    refine ⟨_, _, rfl, steadyThen.push ?_ _ _⟩
    exact Outbound.hasRoom_advance reads (decide_eq_true (Nat.le_max_right _ _)) steady.room

/-- A call that ends leaves its caller with all frames and the last one, at the end of the body. -/
theorem conclude_of_steady (steady : exchange.outbound.IsSteady sent) (outcome : Outcome) :
    (exchange.conclude outcome).outbound.received =
        sent ++ [.endOfStream exchange.wire outcome] ∧
      (exchange.conclude outcome).outbound.endedAt.isSome := by
  obtain ⟨now, outbound, delivered, steadyThen⟩ :=
    deliver_of_steady steady (.endOfStream exchange.wire outcome)
  rw [conclude, delivered]
  exact steadyThen.close now

/-- What may become of a call whose task reads the request: time goes on, parts come, and the caller
acts. -/
def ReadsOn (before after : Exchange) : Prop :=
  ∃ now inbound outbound, after = { before with now, inbound, outbound } ∧
    before.outbound.GoesOn outbound

theorem ReadsOn.refl (exchange : Exchange) : exchange.ReadsOn exchange := ⟨_, _, _, rfl, .refl⟩

theorem ReadsOn.trans {between after : Exchange} (first : exchange.ReadsOn between)
    (second : between.ReadsOn after) : exchange.ReadsOn after := by
  obtain ⟨_, _, _, rfl, goesOn⟩ := first
  obtain ⟨_, _, _, rfl, goesOnThen⟩ := second
  exact ⟨_, _, _, rfl, goesOn.trans goesOnThen⟩

theorem ReadsOn.stays {after : Exchange} (readsOn : exchange.ReadsOn after)
    (stays : exchange.outbound.Stays) : after.outbound.Stays := by
  obtain ⟨_, _, _, rfl, goesOn⟩ := readsOn
  exact stays.goesOn goesOn

theorem ReadsOn.wire {after : Exchange} (readsOn : exchange.ReadsOn after) :
    after.wire = exchange.wire := by
  obtain ⟨_, _, _, rfl, _⟩ := readsOn
  rfl

theorem ReadsOn.withInbound {after : Exchange} (readsOn : exchange.ReadsOn after)
    (inbound : Inbound) : exchange.ReadsOn { after with inbound } := by
  obtain ⟨_, _, _, rfl, goesOn⟩ := readsOn
  exact ⟨_, _, _, rfl, goesOn⟩

/-- A caller that stays does nothing while the task waits but to act. -/
theorem readsOn_race (stays : exchange.outbound.Stays) (ready : Option Nat) :
    exchange.ReadsOn (exchange.race ready).1 := by
  unfold race
  split
  · exact .refl exchange
  · split
    · exact .refl exchange
    · unfold wait
      dsimp only
      rw [hear_of_stays stays]
      split <;> exact ⟨_, _, _, rfl, Outbound.goesOn_advance _ _⟩

section Reading

variable {ι : Type} [Payload ι]

theorem readsOn_receiveFrom (stays : exchange.outbound.Stays) (parts : List BodyPart) :
    exchange.ReadsOn (exchange.receiveFrom parts : Exchange × Option (Inbound.Result ι)).1 := by
  induction parts generalizing exchange with
  | nil =>
      have waits := readsOn_race stays exchange.nextPartAt
      unfold receiveFrom
      split
      · exact (ReadsOn.refl exchange).withInbound _
      · generalize exchange.race exchange.nextPartAt = raced at waits ⊢
        match raced, waits with
        | (after, none), waits | (after, some (.error done)), waits => exact waits
        | (after, some (.ok ())), waits => exact waits.withInbound _
  | cons part parts inductionHypothesis =>
      have waits := readsOn_race stays exchange.nextPartAt
      unfold receiveFrom
      split
      · exact (ReadsOn.refl exchange).withInbound _
      · generalize exchange.race exchange.nextPartAt = raced at waits ⊢
        match raced, waits with
        | (after, none), waits | (after, some (.error done)), waits => exact waits
        | (after, some (.ok ())), waits =>
            exact (waits.withInbound _).trans (inductionHypothesis (waits.stays stays))

theorem readsOn_receive (stays : exchange.outbound.Stays) :
    exchange.ReadsOn (exchange.receive : Exchange × Option (Inbound.Result ι)).1 :=
  readsOn_receiveFrom stays _

theorem readsOn_readBodyFrom (stays : exchange.outbound.Stays) (read : Bytes)
    (parts : List BodyPart) : exchange.ReadsOn (exchange.readBodyFrom read parts).1 := by
  induction parts generalizing exchange read with
  | nil =>
      have waits := readsOn_race stays exchange.nextPartAt
      unfold readBodyFrom
      generalize exchange.race exchange.nextPartAt = raced at waits ⊢
      match raced, waits with
      | (after, none), waits | (after, some (.error done)), waits => exact waits
      | (after, some (.ok ())), waits =>
          dsimp only
          split <;> exact waits
  | cons part parts inductionHypothesis =>
      have waits := readsOn_race stays exchange.nextPartAt
      unfold readBodyFrom
      generalize exchange.race exchange.nextPartAt = raced at waits ⊢
      match raced, waits with
      | (after, none), waits | (after, some (.error done)), waits => exact waits
      | (after, some (.ok ())), waits =>
          dsimp only
          split
          · exact waits
          · have shorter := waits.withInbound (after.inbound.withParts parts)
            exact shorter.trans (inductionHypothesis (shorter.stays stays) _)

theorem readsOn_readSingle (stays : exchange.outbound.Stays) :
    exchange.ReadsOn (exchange.readSingle : Exchange × Option (Except Status ι)).1 := by
  unfold readSingle
  split
  · have first := readsOn_receive (ι := ι) stays
    unfold readOnly
    split <;> rename_i received <;> rw [received] at first
    · exact first
    · exact first
    · exact first
    · have second := first.trans (readsOn_receive (ι := ι) (first.stays stays))
      split <;> rename_i receivedThen <;> rw [receivedThen] at second <;> exact second
  · have reads := readsOn_readBodyFrom stays [] exchange.inbound.body.parts
    unfold readBody
    split <;> rename_i read <;> rw [read] at reads <;> exact reads

end Reading

section Running

variable {ι ο α : Type} [Payload ι] [Payload ο] {wire : WireFormat}

/-- A caller is steady, whatever was sent to it, and reads a format. -/
def IsAttended (exchange : Exchange) (wire : WireFormat) : Prop :=
  exchange.wire = wire ∧ ∃ sent, exchange.outbound.IsSteady sent

theorem IsAttended.readsOn {after : Exchange} (attended : exchange.IsAttended wire)
    (readsOn : exchange.ReadsOn after) : after.IsAttended wire := by
  obtain ⟨rfl, sent, steady⟩ := attended
  obtain ⟨_, _, _, rfl, goesOn⟩ := readsOn
  exact ⟨rfl, sent, steady.goesOn goesOn⟩

theorem IsAttended.stays (attended : exchange.IsAttended wire) : exchange.outbound.Stays := by
  obtain ⟨_, _, steady⟩ := attended
  exact steady.stays

/-- A frame goes in, unless something ends the call before. -/
theorem IsAttended.sendFrame (attended : exchange.IsAttended wire) (frame : ResponseFrame) :
    (exchange.sendFrame frame).1.IsAttended wire := by
  have same := attended
  obtain ⟨rfl, sent, steady⟩ := attended
  unfold Exchange.sendFrame
  split
  · exact same
  · rw [steady.isGone, if_neg Bool.false_ne_true]
    by_cases hasRoom : exchange.outbound.hasRoom = true
    · rw [if_pos hasRoom]
      exact ⟨rfl, _, steady.push hasRoom _ _⟩
    · rw [if_neg hasRoom, wait]
      rw [hear_of_stays steady.stays]
      -- What is heard of a steady caller does not end the wait, so it ends as planned.
      cases planned : exchange.cancellation.race exchange.now exchange.outbound.nextTaking with
      | none => exact ⟨rfl, _, steady.advance _⟩
      | some outcome =>
          obtain ⟨time, result⟩ := outcome
          cases result with
          | error done => exact ⟨rfl, _, steady.advance _⟩
          | ok _ =>
              obtain ⟨_, readyAt, isReady, rfl⟩ := (Cancellation.race_eq_some planned).isOpen rfl
              have reads := Outbound.nextTaking_eq_some_iff.mp isReady
              refine ⟨rfl, _, (steady.advance _).push ?_ _ _⟩
              exact Outbound.hasRoom_advance reads (decide_eq_true (Nat.le_max_right _ _))
                steady.room

theorem IsAttended.run (attended : exchange.IsAttended wire) (handler : Handler ι ο α) :
    (exchange.run handler).1.IsAttended wire := by
  induction handler generalizing exchange with
  | finish result => exact attended
  | onCheck next inductionHypothesis | onDraining next inductionHypothesis =>
      exact inductionHypothesis _ attended
  | onSleep millis next inductionHypothesis =>
      have waits := attended.readsOn (readsOn_race attended.stays (some (exchange.now + millis)))
      rw [Exchange.run]
      split <;> rename_i raced <;> rw [raced] at waits
      · exact waits
      · exact inductionHypothesis _ waits
  | onDone next inductionHypothesis =>
      have waits := attended.readsOn (readsOn_race attended.stays none)
      rw [Exchange.run]
      generalize exchange.race none = raced at waits ⊢
      match raced, waits with
      | (_, some (.error done)), waits => exact inductionHypothesis done waits
      | (_, some (.ok ())), waits | (_, none), waits => exact waits
  | onReceive next inductionHypothesis =>
      have waits := attended.readsOn (readsOn_receive (ι := ι) attended.stays)
      rw [Exchange.run]
      split <;> rename_i received <;> rw [received] at waits
      · exact waits
      · exact inductionHypothesis _ waits
  | onSend message next inductionHypothesis =>
      rw [Exchange.run, send]
      cases exchange.frameOf message with
      | error status => exact inductionHypothesis _ attended
      | ok frame =>
          have sends := attended.sendFrame frame
          dsimp only
          split <;> rename_i sent <;> rw [sent] at sends
          · exact sends
          · exact inductionHypothesis _ sends
  | onSendFinal message next inductionHypothesis =>
      rw [Exchange.run, sendFinal]
      cases exchange.frameOf message with
      | error status => exact inductionHypothesis _ attended
      | ok frame =>
          obtain ⟨sameWire, _, steady⟩ := attended
          obtain ⟨now, outbound, delivered, steadyThen⟩ := deliver_of_steady steady frame
          dsimp only
          rw [delivered]
          exact inductionHypothesis _ ⟨sameWire, _, steadyThen⟩

end Running

end Exchange

end RpcEcho
