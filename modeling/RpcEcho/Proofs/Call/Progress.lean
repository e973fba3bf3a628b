import RpcEcho.Proofs.Call.Paths
import RpcEcho.Proofs.Call.Patience
import RpcEcho.Proofs.Call.Simulation

/-!
# Nothing is lost, and nothing stands still

What the invariant of a streaming call says of its caller and of its handler,
after any moves: what the caller took, what the handler is told of each
attempt, and how the task goes on from where it stands. No state of a task is a
dead end: as long as the response was not dropped, some further moves lead to
the end of the body.

* `Streaming.MayReturn`: the handler of a call may still return.
* `Streaming.LosesNothing`: what holds of a call after any moves.
* `Streaming.losesNothing_run`: it does, and the attempts follow a path of the
  handler.
-/

namespace RpcEcho

namespace Streaming

variable {ι ο : Type} [Payload ο] {call : Streaming ι ο}

/-! ## Single steps -/

theorem go_of_going {handler : Handler ι ο Outcome} (stage : call.stage = .going handler) :
    call.go = call.proceed handler := by
  rw [Streaming.go, stage]

section Placing

variable {frame : ResponseFrame} {pending : Pending ι ο}

theorem go_of_over {done : Done} (stage : call.stage = .placing frame pending false)
    (isOver : call.exchange.done? = some done) :
    call.go = call.answered pending (.error done.status) := by
  unfold Streaming.go
  rw [stage]
  dsimp only
  rw [isOver]

theorem go_of_notOver (stage : call.stage = .placing frame pending false)
    (notOver : call.exchange.done? = none) :
    call.go = { call with stage := .placing frame pending true } := by
  unfold Streaming.go
  rw [stage]
  dsimp only
  rw [notOver]

/-- A caller that reads lets the frame of an attempt in, which waits for nothing else. -/
theorem Orderly.go_of_read (orderly : call.Orderly)
    (stays : call.exchange.outbound.isGone = false)
    (stage : call.stage = .placing frame pending true ∨ call.stage = .delivering frame pending) :
    let later := call.step .read
    later.go = { later with exchange := later.exchange.put frame }.answered pending (.ok ()) := by
  intro later
  have offered := orderly.offer_of_read stays frame
  rcases stage with placing | delivering
  · have stageLater : later.stage = .placing frame pending true := placing
    unfold Streaming.go
    rw [stageLater]
    dsimp only
    rw [offered]
  · have stageLater : later.stage = .delivering frame pending := delivering
    unfold Streaming.go
    rw [stageLater]
    dsimp only
    rw [offered]

end Placing

/-- An attempt waits with its frame, or the handler is told that the message cannot be written. -/
theorem begin_cases (call : Streaming ι ο) (pending : Pending ι ο) :
    (∃ frame, call.exchange.frameOf pending.message = .ok frame ∧
        (call.begin pending).stage =
          if pending.isFinal then .delivering frame pending
          else .placing frame pending false) ∨
      ∃ status, call.exchange.frameOf pending.message = .error status ∧
        call.begin pending = call.answered pending (.error status) := by
  cases written : call.exchange.frameOf pending.message with
  | ok frame =>
      refine .inl ⟨frame, rfl, ?_⟩
      unfold begin
      rw [written]
  | error status =>
      refine .inr ⟨status, rfl, ?_⟩
      unfold begin
      rw [written]

/-! ## The way to the end -/

/-- A call in order that was not dropped. -/
structure IsAlive (call : Streaming ι ο) : Prop where
  orderly : call.Orderly
  stays : call.exchange.outbound.isGone = false

theorem IsAlive.go (alive : call.IsAlive) : call.go.IsAlive :=
  ⟨alive.orderly.go, stays_go alive.stays⟩

theorem IsAlive.step (alive : call.IsAlive) {move : Move ι} (stays : move ≠ .drop) :
    (call.step move).IsAlive := by
  refine ⟨alive.orderly.step move, ?_⟩
  cases move with
  | go => exact stays_go alive.stays
  | read => exact Outbound.stays_actAs alive.stays _
  | drop => exact absurd rfl stays
  | pass millis => exact alive.stays
  | cancel => exact alive.stays
  | drain => exact alive.stays
  | bring answer inbound =>
      unfold Streaming.step
      dsimp only
      split <;> exact alive.stays

/-- Some moves lead to a state in which the handler has returned and the response is there. -/
def MayReturn (call : Streaming ι ο) : Prop :=
  ∃ later, call.Reaches later ∧ later.IsAlive ∧ ∃ outcome, later.stage = .ending outcome

theorem MayReturn.of_step (move : Move ι) (mayReturn : (call.step move).MayReturn) :
    call.MayReturn := by
  obtain ⟨later, reaches, rest⟩ := mayReturn
  have first : call.Reaches (call.step move) := ⟨[move], rfl⟩
  exact ⟨later, first.trans reaches, rest⟩

theorem MayReturn.of_go (mayReturn : call.go.MayReturn) : call.MayReturn :=
  .of_step .go mayReturn

/-- However a handler goes on with an answer, it may return. -/
def MayGoOn {α : Type} (next : α → Handler ι ο Outcome) : Prop :=
  ∀ (answer : α) (call : Streaming ι ο), call.IsAlive → call.stage = .going (next answer) →
    call.MayReturn

theorem mayReturn_of_sleeping {next : Except Done Unit → Handler ι ο Outcome}
    (goesOn : MayGoOn next) {time : Nat} {looked : Bool} (alive : call.IsAlive)
    (stage : call.stage = .sleeping time looked next) : call.MayReturn := by
  -- A task that has looked wakes up once the sleep is due, so that long passes first.
  have wakes : ∀ call : Streaming ι ο, call.IsAlive → call.stage = .sleeping time true next →
      call.MayReturn := by
    intro call alive stage
    let later := call.step (.pass time)
    have aliveLater : later.IsAlive := alive.step fun same => nomatch same
    have stageLater : later.stage = .sleeping time true next := stage
    have due : time ≤ later.exchange.now := Nat.le_add_left _ _
    refine .of_step (.pass time) (.of_go (goesOn (.ok ()) later.go aliveLater.go ?_))
    unfold Streaming.go
    rw [stageLater]
    dsimp only
    rw [if_pos due]
  cases looked with
  | true => exact wakes call alive stage
  | false =>
      refine .of_go ?_
      cases isOver : call.exchange.done? with
      | some done =>
          refine goesOn (.error done) call.go alive.go ?_
          unfold Streaming.go
          rw [stage]
          dsimp only
          rw [isOver]
      | none =>
          refine wakes call.go alive.go ?_
          unfold Streaming.go
          rw [stage]
          dsimp only
          rw [isOver]

theorem mayReturn_of_untilDone {next : Done → Handler ι ο Outcome} (goesOn : MayGoOn next)
    (alive : call.IsAlive) (stage : call.stage = .untilDone next) : call.MayReturn := by
  let later := call.step .cancel
  have aliveLater : later.IsAlive := alive.step fun same => nomatch same
  have stageLater : later.stage = .untilDone next := stage
  have isOver : later.exchange.done? = some .canceled := by
    obtain ⟨cancelledAt, planned, hasCome⟩ := Cancellation.exists_cancelBy
      call.exchange.cancellation (max call.exchange.now call.exchange.now)
    rw [Nat.max_self] at hasCome
    exact Cancellation.check_eq_canceled_iff.mpr ⟨cancelledAt, planned, hasCome⟩
  refine .of_step .cancel (.of_go (goesOn .canceled later.go aliveLater.go ?_))
  unfold Streaming.go
  rw [stageLater]
  dsimp only
  rw [isOver]

theorem mayReturn_of_receiving {next : Except Status (Option ι) → Handler ι ο Outcome}
    (goesOn : MayGoOn next) (alive : call.IsAlive) (stage : call.stage = .receiving next) :
    call.MayReturn := by
  -- Among the answers is that the body has ended.
  refine .of_step (.bring (.ok none) call.exchange.inbound)
    (goesOn (.ok none) _ (alive.step fun same => nomatch same) ?_)
  unfold Streaming.step
  dsimp only
  rw [stage]

/-- An attempt that waits for room is answered as soon as the caller reads. -/
theorem mayReturn_of_room {frame : ResponseFrame} {pending : Pending ι ο}
    (goesOn : MayGoOn pending.next) (alive : call.IsAlive)
    (stage : call.stage = .placing frame pending true ∨
      call.stage = .delivering frame pending) : call.MayReturn := by
  let later := call.step .read
  have aliveLater : later.IsAlive := alive.step fun same => nomatch same
  have answered := alive.orderly.go_of_read alive.stays stage
  exact .of_step .read (.of_go
    (goesOn (.ok ()) later.go aliveLater.go (congrArg Streaming.stage answered)))

theorem mayReturn_of_placing {frame : ResponseFrame} {pending : Pending ι ο} {looked : Bool}
    (goesOn : MayGoOn pending.next) (alive : call.IsAlive)
    (stage : call.stage = .placing frame pending looked) : call.MayReturn := by
  cases looked with
  | true => exact mayReturn_of_room goesOn alive (.inl stage)
  | false =>
      refine .of_go ?_
      cases isOver : call.exchange.done? with
      | some done =>
          have told := go_of_over stage isOver
          exact goesOn (.error done.status) call.go alive.go (congrArg Streaming.stage told)
      | none =>
          have looks := go_of_notOver stage isOver
          exact mayReturn_of_room goesOn alive.go (.inl (congrArg Streaming.stage looks))

/-- A handler may return from wherever it goes on. -/
theorem mayReturn_of_going (handler : Handler ι ο Outcome) :
    ∀ call : Streaming ι ο, call.IsAlive → call.stage = .going handler → call.MayReturn := by
  -- By induction on the handler: each answer leads to a branch of it, from any state of the call.
  induction handler with
  | finish outcome =>
      intro call alive stage
      refine ⟨call.go, ⟨[.go], rfl⟩, alive.go, outcome, ?_⟩
      rw [go_of_going stage]
      rfl
  | onCheck next inductionHypothesis =>
      intro call alive stage
      have answered : call.go.stage = .going (next call.exchange.done?) := by
        rw [go_of_going stage]
        rfl
      exact .of_go (inductionHypothesis _ call.go alive.go answered)
  | onDraining next inductionHypothesis =>
      intro call alive stage
      have answered : call.go.stage = .going
          (next (Cancellation.hasCome call.exchange.drainAt call.exchange.now)) := by
        rw [go_of_going stage]
        rfl
      exact .of_go (inductionHypothesis _ call.go alive.go answered)
  | onSleep millis next inductionHypothesis =>
      intro call alive stage
      have waits : call.go.stage = .sleeping (call.exchange.now + millis) false next := by
        rw [go_of_going stage]
        rfl
      exact .of_go (mayReturn_of_sleeping inductionHypothesis alive.go waits)
  | onDone next inductionHypothesis =>
      intro call alive stage
      have waits : call.go.stage = .untilDone next := by
        rw [go_of_going stage]
        rfl
      exact .of_go (mayReturn_of_untilDone inductionHypothesis alive.go waits)
  | onReceive next inductionHypothesis =>
      intro call alive stage
      have waits : call.go.stage = .receiving next := by
        rw [go_of_going stage]
        rfl
      exact .of_go (mayReturn_of_receiving inductionHypothesis alive.go waits)
  | onSend message next inductionHypothesis =>
      intro call alive stage
      let pending : Pending ι ο := ⟨message, false, call.exchange.done?, next⟩
      have goesOn : MayGoOn pending.next := inductionHypothesis
      have begins : call.go = call.begin pending := go_of_going stage
      refine .of_go ?_
      rcases call.begin_cases pending with ⟨frame, _, waits⟩ | ⟨status, _, told⟩
      · rw [← begins] at waits
        exact mayReturn_of_placing goesOn alive.go waits
      · rw [← begins] at told
        exact goesOn (.error status) call.go alive.go (congrArg Streaming.stage told)
  | onSendFinal message next inductionHypothesis =>
      intro call alive stage
      let pending : Pending ι ο := ⟨message, true, call.exchange.done?, next⟩
      have goesOn : MayGoOn pending.next := inductionHypothesis
      have begins : call.go = call.begin pending := go_of_going stage
      refine .of_go ?_
      rcases call.begin_cases pending with ⟨frame, _, waits⟩ | ⟨status, _, told⟩
      · rw [← begins] at waits
        exact mayReturn_of_room goesOn alive.go (.inr waits)
      · rw [← begins] at told
        exact goesOn (.error status) call.go alive.go (congrArg Streaming.stage told)

/-- From wherever a task stands, the caller may still meet the end of the body. -/
theorem IsAlive.canEnd (alive : call.IsAlive) :
    ∃ later, call.Reaches later ∧ later.exchange.outbound.endedAt.isSome := by
  have returned : ∀ later : Streaming ι ο, call.Reaches later → later.IsAlive →
      (∃ outcome, later.stage = .ending outcome) ∨ later.stage = .closing ∨
        later.stage = .ended →
      ∃ later, call.Reaches later ∧ later.exchange.outbound.endedAt.isSome := by
    intro later reaches alive stage
    have ends := alive.orderly.endedAt_of_returned alive.stays stage
    exact ⟨_, reaches.trans ⟨_, rfl⟩, ends⟩
  have mayReturn : call.MayReturn →
      ∃ later, call.Reaches later ∧ later.exchange.outbound.endedAt.isSome := by
    rintro ⟨later, reaches, aliveThen, ending⟩
    exact returned later reaches aliveThen (.inl ending)
  have goesOn {α : Type} (next : α → Handler ι ο Outcome) : MayGoOn next :=
    fun answer => mayReturn_of_going (next answer)
  have here : call.Reaches call := ⟨[], rfl⟩
  cases stage : call.stage with
  | going handler => exact mayReturn (mayReturn_of_going handler call alive stage)
  | sleeping time looked next => exact mayReturn (mayReturn_of_sleeping (goesOn next) alive stage)
  | untilDone next => exact mayReturn (mayReturn_of_untilDone (goesOn next) alive stage)
  | receiving next => exact mayReturn (mayReturn_of_receiving (goesOn next) alive stage)
  | placing frame pending looked =>
      exact mayReturn (mayReturn_of_placing (goesOn pending.next) alive stage)
  | delivering frame pending =>
      exact mayReturn (mayReturn_of_room (goesOn pending.next) alive (.inr stage))
  | ending outcome => exact returned call here alive (.inl ⟨outcome, stage⟩)
  | closing => exact returned call here alive (.inr (.inl stage))
  | ended => exact returned call here alive (.inr (.inr stage))

/-! ## What the caller gets -/

/-- The next step of a task begins an attempt: the task waits with its frame, or tells its handler
at once that the message cannot be written. -/
def Begins (call : Streaming ι ο) (pending : Pending ι ο)
    (waiting : ResponseFrame → Stage ι ο) : Prop :=
  (∃ frame, call.exchange.frameOf pending.message = .ok frame ∧
      call.go.stage = waiting frame) ∨
    ∃ status attempt, call.exchange.frameOf pending.message = .error status ∧
      call.go.attempts = call.attempts ++ [attempt] ∧ attempt.message = pending.message ∧
      attempt.answer = .error status ∧ call.go.stage = .going (pending.next (.error status))

/-- What a caller gets of a streaming call, and what its handler is told. -/
structure LosesNothing (call : Streaming ι ο) : Prop where
  /-- The caller took the first of the accepted messages, in the order of the calls, and of the
  frame that ends the response. -/
  takes : call.exchange.outbound.received <+: call.messages ++ call.last
  /-- A caller that met the end of the body took them all, and the last frame once. -/
  takesAll : call.exchange.outbound.endedAt.isSome → ∃ outcome, call.outcome = some outcome ∧
    call.exchange.outbound.received =
      call.messages ++ [.endOfStream call.exchange.wire outcome] ∧
    .endOfStream call.exchange.wire outcome ∉ call.messages
  /-- Nothing was put into the queue but the frames of accepted messages and the last frame. -/
  puts : call.exchange.outbound.contents =
    call.messages ++ if call.isPlaced then call.last else []
  attempts : ∀ attempt ∈ call.attempts, attempt.IsFaithful call.exchange.wire
  /-- A handler that gives a message waits for room, unless the message cannot be written. -/
  sendBegins : ∀ message next, call.stage = .going (.onSend message next) →
    let pending : Pending ι ο := ⟨message, false, call.exchange.done?, next⟩
    call.Begins pending fun frame => .placing frame pending false
  finalBegins : ∀ message next, call.stage = .going (.onSendFinal message next) →
    let pending : Pending ι ο := ⟨message, true, call.exchange.done?, next⟩
    call.Begins pending fun frame => .delivering frame pending
  /-- A `send` sees that the call is not over, and then waits for the caller only. -/
  sendLooks : ∀ frame pending, call.stage = .placing frame pending false →
    call.exchange.done? = none → call.go.stage = .placing frame pending true
  sendGoesOut : ∀ frame pending, call.stage = .placing frame pending true →
    call.exchange.outbound.isGone = false → ∃ attempt,
      (call.step .read).go.attempts = call.attempts ++ [attempt] ∧
      attempt.message = pending.message ∧ attempt.answer = .ok ()
  /-- A `send` that began after the end of the call does not wait for room. -/
  sendEnds : ∀ frame pending looked, call.stage = .placing frame pending looked →
    pending.before.isSome → ∃ attempt, call.go.attempts = call.attempts ++ [attempt] ∧
      attempt.message = pending.message ∧ attempt.answer ≠ .ok ()
  /-- A `sendFinal` waits for nothing but the caller, even after the end of the call. -/
  finalGoesOut : ∀ frame pending, call.stage = .delivering frame pending →
    call.exchange.outbound.isGone = false → ∃ attempt,
      (call.step .read).go.attempts = call.attempts ++ [attempt] ∧
      attempt.message = pending.message ∧ attempt.answer = .ok ()
  /-- A handler that returns leaves the last frame to the task. -/
  returns : ∀ outcome, call.stage = .going (.finish outcome) →
    call.go.stage = .ending outcome ∧ call.go.outcome = some outcome
  /-- The last frame waits for nothing but the caller. -/
  lastGoesOut : ∀ outcome, call.stage = .ending outcome →
    call.exchange.outbound.isGone = false → (call.step .read).go.isPlaced = true
  /-- A task that is done has put in the last frame, unless the response was dropped. -/
  leavesLast : call.stage = .ended →
    call.isPlaced = true ∨ call.exchange.outbound.isGone = true
  /-- Unless the response was dropped, its caller can still meet the end of the body. -/
  canEnd : call.exchange.outbound.isGone = false →
    ∃ later, call.Reaches later ∧ later.exchange.outbound.endedAt.isSome

theorem begins_of_begin {pending : Pending ι ο} {waiting : ResponseFrame → Stage ι ο}
    (begins : call.go = call.begin pending)
    (waits : waiting = fun frame =>
      if pending.isFinal then .delivering frame pending else .placing frame pending false) :
    call.Begins pending waiting := by
  rcases call.begin_cases pending with ⟨frame, written, stage⟩ | ⟨status, unwritten, told⟩
  · refine .inl ⟨frame, written, ?_⟩
    rw [begins, stage, waits]
  · rw [← begins] at told
    refine .inr ⟨status, call.record pending (.error status), unwritten, ?_⟩
    rw [told]
    exact ⟨rfl, rfl, rfl, rfl⟩

theorem Orderly.losesNothing (orderly : call.Orderly) : call.LosesNothing where
  takes := by
    refine (List.prefix_append _ call.exchange.outbound.queue).trans ?_
    change call.exchange.outbound.contents <+: _
    rw [orderly.contents]
    split
    · exact List.prefix_rfl
    · rw [List.append_nil]
      exact List.prefix_append _ _
  takesAll := by
    intro ends
    obtain ⟨empty, isPlaced⟩ := orderly.ended ends
    have contents := orderly.contents
    rw [Outbound.contents, empty, List.append_nil, if_pos isPlaced] at contents
    obtain ⟨outcome, returned⟩ := orderly.returned isPlaced
    rw [last, returned] at contents
    refine ⟨outcome, returned, contents, fun member => ?_⟩
    obtain ⟨attempt, _, isFrame⟩ := List.mem_flatMap.mp member
    obtain ⟨payload, same⟩ := Attempt.eq_message_of_mem_frames isFrame
    exact ResponseFrame.message_ne_endOfStream payload _ _ same.symm
  puts := orderly.contents
  attempts := orderly.faithful
  sendBegins := by
    intro message next stage pending
    have begins : call.go = call.begin pending := go_of_going stage
    exact begins_of_begin begins rfl
  finalBegins := by
    intro message next stage pending
    have begins : call.go = call.begin pending := go_of_going stage
    exact begins_of_begin begins rfl
  sendLooks := by
    intro frame pending stage notOver
    rw [go_of_notOver stage notOver]
  sendGoesOut := by
    intro frame pending stage stays
    rw [orderly.go_of_read stays (.inl stage)]
    exact ⟨_, rfl, rfl, rfl⟩
  sendEnds := by
    intro frame pending looked stage began
    have fits := orderly.fits
    rw [Fits, stage] at fits
    obtain ⟨done, before⟩ := Option.isSome_iff_exists.mp began
    obtain ⟨rfl, isOver⟩ := fits.2.2.2 done before
    obtain ⟨reason, isReason⟩ : ∃ reason, call.exchange.done? = some reason := by
      rcases isOver with same | canceled
      · exact ⟨_, same⟩
      · exact ⟨_, canceled⟩
    rw [go_of_over stage isReason]
    refine ⟨_, rfl, rfl, ?_⟩
    intro accepted
    cases accepted
  finalGoesOut := by
    intro frame pending stage stays
    rw [orderly.go_of_read stays (.inr stage)]
    exact ⟨_, rfl, rfl, rfl⟩
  returns := by
    intro outcome stage
    rw [go_of_going stage]
    exact ⟨rfl, rfl⟩
  lastGoesOut := by
    intro outcome stage stays
    have stageThen : (call.step .read).stage = .ending outcome := stage
    unfold Streaming.go
    rw [stageThen]
    dsimp only
    rw [orderly.offer_of_read stays]
    rfl
  leavesLast := by
    intro stage
    have fits := orderly.fits
    rw [Fits, stage] at fits
    exact fits.2
  canEnd := fun stays => IsAlive.canEnd ⟨orderly, stays⟩

/-- In every order of the steps of a task with time, cancellation, draining and the acts of the
caller, nothing is lost, doubled or put out of order, and the attempts are those that the handler
makes along a path through its answers. -/
theorem losesNothing_run (exchange : Exchange) (caller : Caller)
    (handler : Handler ι ο Outcome) (moves : List (Move ι)) :
    let call := (start exchange caller handler).run moves
    call.exchange.wire = exchange.wire ∧ call.LosesNothing ∧
      ∃ rest, call.HasLeft handler rest :=
  ⟨wire_run _ moves, ((orderly_start exchange caller handler).run moves).losesNothing,
    hasLeft_run exchange caller handler moves⟩

end Streaming

end RpcEcho
