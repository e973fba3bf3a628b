import RpcEcho.Response.Outbound

/-!
# The queue of a response

Whatever the caller does, the frames that it took and those that are still in the queue, one behind
the other, are the frames that the call has put in. Only `Outbound.push` adds a frame, at the end.
-/

namespace RpcEcho

namespace ResponseFrame

/-- The frame of a message never ends a response. -/
theorem message_ne_endOfStream (payload : Bytes) (wire : WireFormat) (outcome : Outcome) :
    message payload ≠ endOfStream wire outcome := by
  intro same
  cases wire with
  | connectUnary codec =>
      have flags := congrArg List.head? (ResponseFrame.data.inj same)
      exact absurd flags (by simp [Envelope.wrap, Flags.message, Flags.endStream])
  | connectStream codec =>
      have flags := congrArg List.head? (ResponseFrame.data.inj same)
      exact absurd flags (by simp [Envelope.wrap, Flags.message, Flags.endStream])
  | grpc codec => cases same
  | grpcWeb codec =>
      have flags := congrArg List.head? (ResponseFrame.data.inj same)
      exact absurd flags (by simp [Trailers.frame, Envelope.wrap, Flags.message, Flags.trailers])

end ResponseFrame

/-- A caller in a state acts at a time or later, if it acts at all. -/
def CallerState.IsFrom (now : Nat) (state : CallerState) : Prop :=
  ∀ time, state = .reading time ∨ state = .leaving time → now ≤ time

theorem Caller.isFrom_next (caller : Caller) (now : Nat) : (caller.next now).IsFrom now := by
  intro time acts
  unfold Caller.next at acts
  split at acts
  · rcases acts with reads | leaves
    · cases reads
    · exact CallerState.leaving.inj leaves ▸ Nat.le_add_right _ _
  · rcases acts with reads | leaves
    · exact CallerState.reading.inj reads ▸ Nat.le_add_right _ _
    · cases leaves

theorem Caller.next_ne_waiting (caller : Caller) (now : Nat) : caller.next now ≠ .waiting := by
  unfold Caller.next
  split <;> simp

theorem Caller.next_ne_gone (caller : Caller) (time : Nat) : caller.next time ≠ .gone := by
  unfold Caller.next
  split <;> simp

namespace Outbound

variable (outbound : Outbound)

/-- The frames that the caller took, in order. -/
def received : List ResponseFrame := outbound.delivered.map Prod.fst

/-- All frames that were put in, those that the caller took first. -/
def contents : List ResponseFrame := outbound.received ++ outbound.queue

/-! ## What the call does -/

@[simp]
theorem received_wake (now : Nat) : (outbound.wake now).received = outbound.received := by
  unfold wake
  split <;> rfl

@[simp]
theorem queue_wake (now : Nat) : (outbound.wake now).queue = outbound.queue := by
  unfold wake
  split <;> rfl

@[simp]
theorem closed_wake (now : Nat) : (outbound.wake now).closed = outbound.closed := by
  unfold wake
  split <;> rfl

@[simp]
theorem endedAt_wake (now : Nat) : (outbound.wake now).endedAt = outbound.endedAt := by
  unfold wake
  split <;> rfl

@[simp]
theorem isGone_wake (now : Nat) : (outbound.wake now).isGone = outbound.isGone := by
  unfold wake
  split
  case h_1 waits => simp [isGone, waits]
  case h_2 => rfl

@[simp]
theorem queue_push (now : Nat) (frame : ResponseFrame) :
    (outbound.push now frame).queue = outbound.queue ++ [frame] := by
  simp [push]

/-- A frame for which there is room does not overfill the queue. -/
theorem length_queue_push (hasRoom : outbound.hasRoom = true) (now : Nat) (frame : ResponseFrame) :
    (outbound.push now frame).queue.length ≤ capacity := by
  rw [Outbound.hasRoom, decide_eq_true_eq] at hasRoom
  rw [queue_push, List.length_append, List.length_singleton]
  exact hasRoom

@[simp]
theorem closed_push (now : Nat) (frame : ResponseFrame) :
    (outbound.push now frame).closed = outbound.closed := by
  simp [push]

@[simp]
theorem endedAt_push (now : Nat) (frame : ResponseFrame) :
    (outbound.push now frame).endedAt = outbound.endedAt := by
  simp [push]

@[simp]
theorem isGone_push (now : Nat) (frame : ResponseFrame) :
    (outbound.push now frame).isGone = outbound.isGone := by
  simp [push, isGone_wake]
  rfl

@[simp]
theorem received_push (now : Nat) (frame : ResponseFrame) :
    (outbound.push now frame).received = outbound.received := by
  simp only [push, received_wake]
  rfl

theorem contents_push (now : Nat) (frame : ResponseFrame) :
    (outbound.push now frame).contents = outbound.contents ++ [frame] := by
  simp [contents]

@[simp]
theorem queue_close (now : Nat) : (outbound.close now).queue = outbound.queue := by
  simp [close]

theorem closed_close (now : Nat) : (outbound.close now).closed = true := by
  simp [close]

@[simp]
theorem endedAt_close (now : Nat) : (outbound.close now).endedAt = outbound.endedAt := by
  simp [close]

@[simp]
theorem isGone_close (now : Nat) : (outbound.close now).isGone = outbound.isGone := by
  simp [close, isGone_wake]
  rfl

theorem contents_close (now : Nat) : (outbound.close now).contents = outbound.contents := by
  simp only [contents, close, received_wake, queue_wake]
  rfl

/-! ## What the caller does -/

/-- The caller does what is due in a state, unless it is gone. -/
def actAs (state : CallerState) : Outbound :=
  if outbound.isGone then outbound else { outbound with state }.act

theorem contents_act : outbound.act.contents = outbound.contents := by
  unfold act
  split
  case h_1 time frame rest state queue => simp [contents, received, delivered, queue]
  case h_2 => split <;> rfl
  case h_3 => rfl
  case h_4 => rfl
  case h_5 => rfl

theorem closed_act : outbound.act.closed = outbound.closed := by
  unfold act
  split
  case h_2 => split <;> rfl
  all_goals rfl

theorem length_queue_act : outbound.act.queue.length ≤ outbound.queue.length := by
  unfold act
  split
  case h_1 time frame rest state queue => simp [queue]
  case h_2 queue => split <;> simp [queue]
  all_goals exact Nat.le_refl _

/-- A caller meets the end of the body only when it has taken all frames and the last one was put
in. -/
theorem endedAt_act (ends : outbound.act.endedAt.isSome) :
    outbound.endedAt.isSome ∨
      outbound.closed = true ∧ outbound.queue = [] ∧ outbound.isGone = false := by
  unfold act at ends
  split at ends
  case h_2 time state queue =>
    split at ends
    case isTrue closed => exact .inr ⟨closed, queue, by simp [isGone, state]⟩
    case isFalse => exact .inl ends
  all_goals exact .inl ends

/-- A caller that reads makes room for a frame, and stays. -/
theorem hasRoom_act {time : Nat} (reads : outbound.state = .reading time)
    (fits : outbound.queue.length ≤ capacity) :
    outbound.act.hasRoom = true ∧ outbound.act.isGone = false := by
  unfold act
  split
  case h_1 time frame rest state queue =>
    have length := congrArg List.length queue
    rw [List.length_cons] at length
    refine ⟨?_, ?_⟩
    · simp only [hasRoom, decide_eq_true_eq]
      omega
    · simpa [isGone] using Caller.next_ne_gone _ _
  case h_2 time state queue =>
    split <;> simp [hasRoom, isGone, queue, capacity]
  all_goals simp_all

theorem contents_actAs (state : CallerState) :
    (outbound.actAs state).contents = outbound.contents := by
  unfold actAs
  split
  · rfl
  · exact contents_act _

theorem closed_actAs (state : CallerState) : (outbound.actAs state).closed = outbound.closed := by
  unfold actAs
  split
  · rfl
  · exact closed_act _

theorem length_queue_actAs (state : CallerState) :
    (outbound.actAs state).queue.length ≤ outbound.queue.length := by
  unfold actAs
  split
  · exact Nat.le_refl _
  · exact length_queue_act _

theorem isGone_actAs (state : CallerState) (isGone : outbound.isGone = true) :
    (outbound.actAs state).isGone = true := by
  rwa [actAs, if_pos isGone]

theorem endedAt_actAs (state : CallerState) (ends : (outbound.actAs state).endedAt.isSome) :
    outbound.endedAt.isSome ∨
      outbound.closed = true ∧ outbound.queue = [] ∧ outbound.isGone = false := by
  unfold actAs at ends
  split at ends
  case isTrue => exact .inl ends
  case isFalse stays =>
    rcases endedAt_act _ ends with ended | ⟨closed, queue, _⟩
    · exact .inl ended
    · exact .inr ⟨closed, queue, by simpa using stays⟩

/-! ## What the caller does in the course of time -/

section Advance

variable {outbound : Outbound} {time : Nat}

theorem due_eq_some_iff :
    outbound.due = some time ↔ outbound.state = .reading time ∨ outbound.state = .leaving time := by
  unfold due
  split <;> simp_all

theorem nextTaking_eq_some_iff :
    outbound.nextTaking = some time ↔ outbound.state = .reading time := by
  unfold nextTaking
  split <;> simp_all

/-- A caller that reads stays, acts no earlier the next time, and waits for an empty queue only. -/
theorem act_of_reading (reads : outbound.state = .reading time) :
    outbound.act.droppedAt = outbound.droppedAt ∧ outbound.act.isGone = false ∧
      outbound.act.state.IsFrom time ∧
      (outbound.act.state = .waiting → outbound.act.queue = []) := by
  unfold act
  split
  case h_1 time frame rest state queue =>
    cases reads.symm.trans state
    exact ⟨rfl, by simpa [isGone] using Caller.next_ne_gone _ _, Caller.isFrom_next _ _,
      fun waits => absurd waits (Caller.next_ne_waiting _ _)⟩
  case h_2 time state queue =>
    cases reads.symm.trans state
    split
    · refine ⟨rfl, rfl, fun next acts => ?_, fun waits => nomatch waits⟩
      rcases acts with reads | leaves
      · cases reads
      · exact CallerState.leaving.inj leaves ▸ Nat.le_add_right _ _
    · exact ⟨rfl, rfl, fun next acts => (by rcases acts with reads | leaves <;> contradiction),
        fun _ => queue⟩
  case h_3 time state => cases reads.symm.trans state
  case h_4 state => cases reads.symm.trans state
  case h_5 state => cases reads.symm.trans state

theorem act_of_leaving (leaves : outbound.state = .leaving time) :
    outbound.act = { outbound with state := .gone, droppedAt := some time } := by
  unfold act
  split
  case h_3 other state =>
    cases leaves.symm.trans state
    rfl
  case h_1 state queue => cases leaves.symm.trans state
  case h_2 state queue => cases leaves.symm.trans state
  case h_4 state => cases leaves.symm.trans state
  case h_5 state => cases leaves.symm.trans state

/-- What is due comes first. -/
theorem advance_of_due {limit : Option Nat} (due : outbound.due = some time)
    (isBy : Outbound.isBy limit time = true) :
    outbound.advance limit = outbound.act.advance limit := by
  rw [advance]
  split
  case h_1 never => cases due.symm.trans never
  case h_2 other isDue =>
    cases due.symm.trans isDue
    rw [if_pos isBy]

theorem advance_of_idle {limit : Option Nat}
    (idle : ∀ time, outbound.due = some time → Outbound.isBy limit time = false) :
    outbound.advance limit = outbound := by
  rw [advance]
  split
  case h_1 => rfl
  case h_2 other isDue => rw [idle other isDue, if_neg Bool.false_ne_true]

theorem length_queue_advance (limit : Option Nat) (outbound : Outbound) :
    (outbound.advance limit).queue.length ≤ outbound.queue.length := by
  fun_induction advance limit outbound with
  | case1 outbound never => exact Nat.le_refl _
  | case2 outbound time due isBy inductionHypothesis =>
      exact Nat.le_trans inductionHypothesis (length_queue_act outbound)
  | case3 outbound time due isLater => exact Nat.le_refl _

/-- A caller that reads makes room until its time. -/
theorem hasRoom_advance {limit : Option Nat} (reads : outbound.state = .reading time)
    (isBy : Outbound.isBy limit time = true) (fits : outbound.queue.length ≤ capacity) :
    (outbound.advance limit).hasRoom = true := by
  rw [advance_of_due (due_eq_some_iff.mpr (.inl reads)) isBy]
  have hasRoom := (outbound.hasRoom_act reads fits).1
  have length := length_queue_advance limit outbound.act
  simp only [Outbound.hasRoom, decide_eq_true_eq] at hasRoom ⊢
  omega

/-- A caller that leaves drops the response at its time, and does nothing more. -/
theorem advance_of_leaving {limit : Option Nat} (leaves : outbound.state = .leaving time)
    (isBy : Outbound.isBy limit time = true) : outbound.advance limit = outbound.act := by
  rw [advance_of_due (due_eq_some_iff.mpr (.inr leaves)) isBy]
  refine advance_of_idle fun other due => ?_
  rw [act_of_leaving leaves] at due
  cases due

end Advance

end Outbound

end RpcEcho
