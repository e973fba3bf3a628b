import RpcEcho.Proofs.Call.Waiting
import RpcEcho.Proofs.Response.Outbound

/-!
# Calls with a prompt caller

A prompt caller wants every frame and waits for nothing but frames. It takes each frame at the very
millisecond at which the frame is put in, so what it has, and when, is told by what the task did and
when. `Exchange.IsPrompt` is the state of a call between two steps of its handler, with the frames
put in so far; one lemma for each step of a handler says what becomes of it.
-/

namespace RpcEcho

/-! ## The caller -/

namespace Outbound

/-- Frames on their way to a prompt caller. It has taken those of earlier milliseconds, and the
others are taken in this one. -/
structure IsPrompt (outbound : Outbound) (now : Nat) (sent : List (ResponseFrame × Nat)) :
    Prop where
  caller : outbound.caller = {}
  notClosed : outbound.closed = false
  notDropped : outbound.droppedAt = none
  state : outbound.state = .reading now ∨ outbound.state = .waiting ∧ outbound.queue = []
  sent : outbound.delivered ++ outbound.queue.map (fun frame => (frame, now)) = sent

theorem isPrompt_start (now : Nat) : (start {} now).IsPrompt now [] :=
  ⟨rfl, rfl, rfl, .inl rfl, rfl⟩

variable {outbound : Outbound} {now : Nat} {sent : List (ResponseFrame × Nat)}

theorem IsPrompt.isGone (prompt : outbound.IsPrompt now sent) : outbound.isGone = false := by
  rcases prompt.state with reads | ⟨waits, _⟩
  · simp [Outbound.isGone, reads]
  · simp [Outbound.isGone, waits]

theorem IsPrompt.push (prompt : outbound.IsPrompt now sent) (frame : ResponseFrame) :
    (outbound.push now frame).IsPrompt now (sent ++ [(frame, now)]) := by
  obtain ⟨caller, notClosed, notDropped, state, rfl⟩ := prompt
  rcases state with reads | ⟨waits, empty⟩
  · refine ⟨?_, ?_, ?_, .inl ?_, ?_⟩ <;> simp [Outbound.push, wake, *, delivered]
  · refine ⟨?_, ?_, ?_, .inl ?_, ?_⟩ <;> simp [Outbound.push, wake, *, delivered]

/-- If the queue is full, a prompt caller is about to read. -/
theorem IsPrompt.reads_of_full (prompt : outbound.IsPrompt now sent)
    (full : ¬ outbound.hasRoom = true) : outbound.state = .reading now := by
  refine prompt.state.resolve_right fun ⟨_, empty⟩ => full ?_
  simp [Outbound.hasRoom, empty, Outbound.capacity]

/-- What a caller has that took all frames of a queue at one time, last first. -/
def takenAt (now : Nat) (queue : List ResponseFrame) (taken : List (ResponseFrame × Nat)) :
    List (ResponseFrame × Nat) :=
  (queue.map fun frame => (frame, now)).reverse ++ taken

theorem takenAt_cons (frame : ResponseFrame) (queue : List ResponseFrame)
    (taken : List (ResponseFrame × Nat)) :
    takenAt now (frame :: queue) taken = takenAt now queue ((frame, now) :: taken) := by
  simp [takenAt]

theorem advance_of_reads {limit : Option Nat} (isBy : Outbound.isBy limit now = true)
    {queue : List ResponseFrame} {closed : Bool} {taken : List (ResponseFrame × Nat)}
    {endedAt droppedAt : Option Nat} :
    advance limit ⟨{}, .reading now, queue, closed, taken, endedAt, droppedAt⟩ =
      advance limit (act ⟨{}, .reading now, queue, closed, taken, endedAt, droppedAt⟩) :=
  advance_of_due (due_eq_some_iff.mpr (.inl rfl)) isBy

/-- A prompt caller takes all frames of the queue at once, and waits for the next. -/
theorem advance_of_open {limit : Nat} (later : now ≤ limit) (queue : List ResponseFrame)
    (taken : List (ResponseFrame × Nat)) (endedAt droppedAt : Option Nat) :
    advance (some limit) ⟨{}, .reading now, queue, false, taken, endedAt, droppedAt⟩ =
      ⟨{}, .waiting, [], false, takenAt now queue taken, endedAt, droppedAt⟩ := by
  have isBy : Outbound.isBy (some limit) now = true := decide_eq_true later
  induction queue generalizing taken with
  | nil =>
      rw [advance_of_reads isBy]
      exact advance_of_idle fun time due => nomatch due
  | cons frame rest inductionHypothesis =>
      rw [advance_of_reads isBy, takenAt_cons]
      exact inductionHypothesis ((frame, now) :: taken)

/-- A prompt caller takes all frames of the queue at once, and meets the end of the response. -/
theorem advance_of_closed (queue : List ResponseFrame) (taken : List (ResponseFrame × Nat))
    (endedAt droppedAt : Option Nat) :
    advance none ⟨{}, .reading now, queue, true, taken, endedAt, droppedAt⟩ =
      ⟨{}, .gone, [], true, takenAt now queue taken, some now, some now⟩ := by
  induction queue generalizing taken with
  | nil =>
      rw [advance_of_reads rfl]
      exact advance_of_leaving rfl rfl
  | cons frame rest inductionHypothesis =>
      rw [advance_of_reads rfl, takenAt_cons]
      exact inductionHypothesis ((frame, now) :: taken)

/-- A prompt caller has taken everything before time goes on. -/
theorem IsPrompt.advance (prompt : outbound.IsPrompt now sent) {limit : Nat} (later : now ≤ limit) :
    (outbound.advance (some limit)).IsPrompt limit sent ∧
      (outbound.advance (some limit)).queue = [] := by
  obtain ⟨caller, state, queue, closed, taken, endedAt, droppedAt⟩ := outbound
  obtain ⟨rfl, rfl, notDropped, stands, rfl⟩ := prompt
  rcases stands with rfl | ⟨rfl, rfl⟩
  · rw [advance_of_open later]
    exact ⟨⟨rfl, rfl, notDropped, .inr ⟨rfl, rfl⟩, by simp [delivered, takenAt]⟩, rfl⟩
  · have idle : Outbound.advance (some limit)
        ⟨{}, .waiting, [], false, taken, endedAt, droppedAt⟩ = _ :=
      advance_of_idle fun _ due => by cases due
    rw [idle]
    exact ⟨⟨rfl, rfl, notDropped, .inr ⟨rfl, rfl⟩, rfl⟩, rfl⟩

/-- A prompt caller has everything when the response is closed, and meets its end. -/
theorem IsPrompt.close (prompt : outbound.IsPrompt now sent) :
    ((outbound.close now).advance none).delivered = sent ∧
      ((outbound.close now).advance none).endedAt = some now := by
  obtain ⟨caller, state, queue, closed, taken, endedAt, droppedAt⟩ := outbound
  obtain ⟨rfl, rfl, notDropped, stands, rfl⟩ := prompt
  have reads : Outbound.close ⟨{}, state, queue, false, taken, endedAt, droppedAt⟩ now =
      ⟨{}, .reading now, queue, true, taken, endedAt, droppedAt⟩ := by
    rcases stands with rfl | ⟨rfl, _⟩ <;> rfl
  rw [reads, advance_of_closed]
  simp [delivered, takenAt]

end Outbound

/-! ## The call -/

namespace Exchange

/-- A call between two steps of its handler: it is open, nothing cancels it, and its caller is
prompt. -/
structure IsPrompt (exchange : Exchange) (sent : List (ResponseFrame × Nat)) : Prop where
  outbound : exchange.outbound.IsPrompt exchange.now sent
  notCancelled : exchange.cancellation.cancelledAt = none
  isOpen : exchange.done? = none

variable {exchange : Exchange} {sent : List (ResponseFrame × Nat)}

/-- What is heard of a prompt caller is what it takes. -/
theorem IsPrompt.hear (prompt : exchange.IsPrompt sent) {limit : Nat}
    (later : exchange.now ≤ limit) :
    exchange.hear (some limit) =
      { exchange with outbound := exchange.outbound.advance (some limit) } := by
  have notDropped := (prompt.outbound.advance later).1.notDropped
  simp [Exchange.hear, notDropped, Cancellation.cancelBy, Cancellation.noLater]

/-- A call with a prompt caller at a later time. -/
def laterAt (exchange : Exchange) (time : Nat) : Exchange :=
  { exchange with outbound := exchange.outbound.advance (some time), now := time }

@[simp]
theorem now_laterAt (exchange : Exchange) (time : Nat) : (exchange.laterAt time).now = time := rfl

@[simp]
theorem wire_laterAt (exchange : Exchange) (time : Nat) :
    (exchange.laterAt time).wire = exchange.wire := rfl

@[simp]
theorem cancellation_laterAt (exchange : Exchange) (time : Nat) :
    (exchange.laterAt time).cancellation = exchange.cancellation := rfl

theorem IsPrompt.wait (prompt : exchange.IsPrompt sent) {ready : Option Nat} {time : Nat}
    {result : Except Done Unit}
    (ends : exchange.cancellation.race exchange.now ready = some (time, result)) :
    exchange.wait ready = (exchange.laterAt time, some result) := by
  have later := (Cancellation.race_eq_some ends).started
  unfold Exchange.wait
  simp only [ends, Option.map_some, prompt.hear later]
  rfl

/-- A call that nothing cancels is over exactly when it is late. -/
theorem IsPrompt.deadline_of_over (prompt : exchange.IsPrompt sent) {time : Nat} {done : Done}
    (isOver : exchange.cancellation.check time = some done) :
    done = .deadlineExceeded ∧ ∃ nanos, exchange.cancellation.deadline = some nanos ∧
      exchange.now < Cancellation.firstMilli nanos ∧ Cancellation.firstMilli nanos ≤ time := by
  cases done with
  | canceled =>
      obtain ⟨cancelledAt, planned, _⟩ := Cancellation.check_eq_canceled_iff.mp isOver
      rw [prompt.notCancelled] at planned
      cases planned
  | deadlineExceeded =>
      obtain ⟨_, nanos, limited, late⟩ := Cancellation.check_eq_late_iff.mp isOver
      have notLate := (Cancellation.check_eq_none_iff.mp prompt.isOpen).2 nanos limited
      exact ⟨rfl, nanos, limited, Cancellation.lt_firstMilli_iff.mpr notLate, late⟩

/-- Nothing but the deadline puts an end to a sleep. -/
theorem IsPrompt.race_sleep (prompt : exchange.IsPrompt sent) {millis : Nat} :
    exchange.cancellation.check (exchange.now + millis) = none ∧
        exchange.cancellation.race exchange.now (some (exchange.now + millis)) =
          some (exchange.now + millis, .ok ()) ∨
      ∃ nanos, exchange.cancellation.deadline = some nanos ∧
        exchange.now < Cancellation.firstMilli nanos ∧
        Cancellation.firstMilli nanos ≤ exchange.now + millis ∧
        exchange.cancellation.race exchange.now (some (exchange.now + millis)) =
          some (Cancellation.firstMilli nanos, .error .deadlineExceeded) := by
  have later : max exchange.now (exchange.now + millis) = exchange.now + millis :=
    Nat.max_eq_right (Nat.le_add_right _ _)
  cases ends : exchange.cancellation.race exchange.now (some (exchange.now + millis)) with
  | none => cases (Cancellation.race_eq_none ends).2.2
  | some result =>
      obtain ⟨time, result⟩ := result
      have endsWait := Cancellation.race_eq_some ends
      cases result with
      | ok _ =>
          obtain ⟨isOpen, readyAt, isReady, rfl⟩ := endsWait.isOpen rfl
          cases isReady
          rw [later] at isOpen
          exact .inl ⟨isOpen, by rw [later]⟩
      | error done =>
          obtain ⟨rfl, nanos, limited, started, late⟩ :=
            prompt.deadline_of_over (endsWait.isOver done rfl)
          have atMost := endsWait.late nanos limited
          have comes := endsWait.comes _ rfl
          obtain rfl : time = Cancellation.firstMilli nanos := by omega
          exact .inr ⟨nanos, limited, started, by omega, rfl⟩

theorem IsPrompt.race_of_ends (prompt : exchange.IsPrompt sent) {millis time : Nat}
    {result : Except Done Unit} (positive : 0 < millis)
    (ends : exchange.cancellation.race exchange.now (some (exchange.now + millis)) =
      some (time, result)) :
    exchange.race (some (exchange.now + millis)) = (exchange.laterAt time, some result) := by
  have notYet : Cancellation.hasCome (some (exchange.now + millis)) exchange.now = false := by
    simp only [Cancellation.hasCome, decide_eq_false_iff_not]
    omega
  rw [race, prompt.isOpen, notYet]
  exact prompt.wait ends

theorem IsPrompt.outbound_laterAt (prompt : exchange.IsPrompt sent) {time : Nat}
    (later : exchange.now ≤ time) :
    (exchange.laterAt time).outbound.IsPrompt (exchange.laterAt time).now sent :=
  (prompt.outbound.advance later).1

theorem IsPrompt.laterAt (prompt : exchange.IsPrompt sent) {time : Nat}
    (later : exchange.now ≤ time) (isOpen : exchange.cancellation.check time = none) :
    (exchange.laterAt time).IsPrompt sent :=
  ⟨prompt.outbound_laterAt later, prompt.notCancelled, isOpen⟩

theorem IsPrompt.put (prompt : exchange.IsPrompt sent) (frame : ResponseFrame) :
    (exchange.put frame).IsPrompt (sent ++ [(frame, exchange.now)]) :=
  ⟨prompt.outbound.push frame, prompt.notCancelled, prompt.isOpen⟩

/-- A frame of an open call is put in at once. If the queue is full, the caller empties it first. -/
theorem IsPrompt.sendFrame (prompt : exchange.IsPrompt sent) (frame : ResponseFrame) :
    ∃ after, exchange.sendFrame frame = (after, some (.ok ())) ∧
      after.IsPrompt (sent ++ [(frame, exchange.now)]) ∧ after.now = exchange.now ∧
      after.wire = exchange.wire ∧ after.cancellation = exchange.cancellation := by
  unfold Exchange.sendFrame
  rw [prompt.isOpen]
  dsimp only
  rw [prompt.outbound.isGone, if_neg Bool.false_ne_true]
  by_cases hasRoom : exchange.outbound.hasRoom = true
  · rw [if_pos hasRoom]
    exact ⟨_, rfl, prompt.put frame, rfl, rfl, rfl⟩
  · have takes : exchange.outbound.nextTaking = some exchange.now :=
      Outbound.nextTaking_eq_some_iff.mpr (prompt.outbound.reads_of_full hasRoom)
    have openNow : exchange.cancellation.check (max exchange.now exchange.now) = none := by
      rw [Nat.max_self]
      exact prompt.isOpen
    have ends := Cancellation.race_of_open openNow
    rw [Nat.max_self] at ends
    rw [if_neg hasRoom, takes, prompt.wait ends]
    exact ⟨_, rfl, (prompt.laterAt (Nat.le_refl _) prompt.isOpen).put frame, rfl, rfl, rfl⟩

/-- The last frame is put in at once, even if the call is over, and the caller meets the end. -/
theorem conclude_of_prompt (outbound : exchange.outbound.IsPrompt exchange.now sent)
    (outcome : Outcome) :
    (exchange.conclude outcome).outbound.delivered =
        sent ++ [(.endOfStream exchange.wire outcome, exchange.now)] ∧
      (exchange.conclude outcome).outbound.endedAt = some exchange.now := by
  have delivered : ∃ after,
      exchange.deliver (.endOfStream exchange.wire outcome) = (after, .ok ()) ∧
      after.outbound.IsPrompt exchange.now
        (sent ++ [(.endOfStream exchange.wire outcome, exchange.now)]) ∧
      after.now = exchange.now := by
    unfold Exchange.deliver
    rw [outbound.isGone, if_neg Bool.false_ne_true]
    by_cases hasRoom : exchange.outbound.hasRoom = true
    · rw [if_pos hasRoom]
      exact ⟨_, rfl, outbound.push _, rfl⟩
    · have due : exchange.outbound.due = some exchange.now :=
        Outbound.due_eq_some_iff.mpr (.inl (outbound.reads_of_full hasRoom))
      have emptied := (outbound.advance (Nat.le_refl exchange.now)).1
      rw [if_neg hasRoom, due, Option.getD_some, Nat.max_self]
      have heard : (exchange.hear (some exchange.now)).outbound =
          exchange.outbound.advance (some exchange.now) := rfl
      dsimp only
      rw [heard, emptied.isGone, if_neg Bool.false_ne_true]
      exact ⟨_, rfl, emptied.push _, rfl⟩
  obtain ⟨after, isDelivered, prompt, sameTime⟩ := delivered
  unfold Exchange.conclude
  rw [isDelivered]
  dsimp only
  rw [sameTime]
  exact prompt.close

end Exchange

end RpcEcho
