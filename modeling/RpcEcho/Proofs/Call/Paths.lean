import RpcEcho.Proofs.Call.Interleaving

/-!
# The path of a handler

A handler is a tree: each question to the call has a branch for each answer. A
run of a task follows one path of that tree, whatever happens around it, and
the attempts that it has recorded are those that stand along the path.

* `Handler.Makes`: the attempts along a path, and what of the handler is left.
* `Stage.Leaves`: what of the handler is left where a task stands.
* `Streaming.hasLeft_run`: the path of a task is a path of its handler.
-/

namespace RpcEcho

variable {ι ο : Type}

namespace Handler

/-- Along some path through its answers a handler makes attempts, and then
something of it is left. -/
inductive Makes : Handler ι ο Outcome → List (Attempt ο) → Handler ι ο Outcome → Prop
  | nothing (handler : Handler ι ο Outcome) : Makes handler [] handler
  | check {next : Option Done → Handler ι ο Outcome} {attempts : List (Attempt ο)}
      {rest : Handler ι ο Outcome} (answer : Option Done)
      (makes : Makes (next answer) attempts rest) : Makes (.onCheck next) attempts rest
  | draining {next : Bool → Handler ι ο Outcome} {attempts : List (Attempt ο)}
      {rest : Handler ι ο Outcome} (answer : Bool)
      (makes : Makes (next answer) attempts rest) : Makes (.onDraining next) attempts rest
  | sleep {millis : Nat} {next : Except Done Unit → Handler ι ο Outcome}
      {attempts : List (Attempt ο)} {rest : Handler ι ο Outcome} (answer : Except Done Unit)
      (makes : Makes (next answer) attempts rest) : Makes (.onSleep millis next) attempts rest
  | done {next : Done → Handler ι ο Outcome} {attempts : List (Attempt ο)}
      {rest : Handler ι ο Outcome} (answer : Done)
      (makes : Makes (next answer) attempts rest) : Makes (.onDone next) attempts rest
  | receive {next : Except Status (Option ι) → Handler ι ο Outcome}
      {attempts : List (Attempt ο)} {rest : Handler ι ο Outcome}
      (answer : Except Status (Option ι)) (makes : Makes (next answer) attempts rest) :
      Makes (.onReceive next) attempts rest
  | send {next : Except Status Unit → Handler ι ο Outcome} {attempt : Attempt ο}
      {attempts : List (Attempt ο)} {rest : Handler ι ο Outcome}
      (notFinal : attempt.isFinal = false)
      (makes : Makes (next attempt.answer) attempts rest) :
      Makes (.onSend attempt.message next) (attempt :: attempts) rest
  | sendFinal {next : Except Status Unit → Handler ι ο Outcome} {attempt : Attempt ο}
      {attempts : List (Attempt ο)} {rest : Handler ι ο Outcome}
      (isFinal : attempt.isFinal = true)
      (makes : Makes (next attempt.answer) attempts rest) :
      Makes (.onSendFinal attempt.message next) (attempt :: attempts) rest

theorem Makes.trans {handler between rest : Handler ι ο Outcome}
    {attempts others : List (Attempt ο)} (before : handler.Makes attempts between)
    (after : between.Makes others rest) : handler.Makes (attempts ++ others) rest := by
  induction before with
  | nothing handler => exact after
  | check answer _ inductionHypothesis => exact .check answer (inductionHypothesis after)
  | draining answer _ inductionHypothesis => exact .draining answer (inductionHypothesis after)
  | sleep answer _ inductionHypothesis => exact .sleep answer (inductionHypothesis after)
  | done answer _ inductionHypothesis => exact .done answer (inductionHypothesis after)
  | receive answer _ inductionHypothesis => exact .receive answer (inductionHypothesis after)
  | send notFinal _ inductionHypothesis => exact .send notFinal (inductionHypothesis after)
  | sendFinal isFinal _ inductionHypothesis => exact .sendFinal isFinal (inductionHypothesis after)

end Handler

/-- What of its handler is left to a task, by where the task stands. A wait
leaves the question whose answer is waited for. -/
inductive Stage.Leaves : Stage ι ο → Handler ι ο Outcome → Prop
  | going (handler : Handler ι ο Outcome) : Leaves (.going handler) handler
  | sleeping (millis time : Nat) (looked : Bool) (next : Except Done Unit → Handler ι ο Outcome) :
      Leaves (.sleeping time looked next) (.onSleep millis next)
  | untilDone (next : Done → Handler ι ο Outcome) : Leaves (.untilDone next) (.onDone next)
  | receiving (next : Except Status (Option ι) → Handler ι ο Outcome) :
      Leaves (.receiving next) (.onReceive next)
  | placing (frame : ResponseFrame) {pending : Pending ι ο} (looked : Bool)
      (notFinal : pending.isFinal = false) :
      Leaves (.placing frame pending looked) (.onSend pending.message pending.next)
  | delivering (frame : ResponseFrame) {pending : Pending ι ο}
      (isFinal : pending.isFinal = true) :
      Leaves (.delivering frame pending) (.onSendFinal pending.message pending.next)
  | ending (outcome : Outcome) : Leaves (.ending outcome) (.finish outcome)
  | closing (outcome : Outcome) : Leaves .closing (.finish outcome)
  | ended (outcome : Outcome) : Leaves .ended (.finish outcome)

namespace Streaming

/-- A task has made its attempts along a path of a handler, of which something
is left. What a handler returned stands at the end of the path. -/
structure HasLeft (call : Streaming ι ο) (handler rest : Handler ι ο Outcome) : Prop where
  makes : handler.Makes call.attempts rest
  leaves : call.stage.Leaves rest
  returned : ∀ outcome, call.outcome = some outcome → rest = .finish outcome

theorem hasLeft_start (exchange : Exchange) (caller : Caller) (handler : Handler ι ο Outcome) :
    (start exchange caller handler).HasLeft handler handler :=
  ⟨.nothing handler, .going handler, fun _ returned => nomatch returned⟩

variable {call : Streaming ι ο} {handler rest : Handler ι ο Outcome}

theorem HasLeft.withStage (hasLeft : call.HasLeft handler rest) {stage : Stage ι ο}
    (leaves : stage.Leaves rest) : { call with stage }.HasLeft handler rest :=
  ⟨hasLeft.makes, leaves, hasLeft.returned⟩

/-- The task goes on along the path without an attempt. -/
theorem HasLeft.goesOn (hasLeft : call.HasLeft handler rest)
    (asks : ∀ outcome, rest ≠ .finish outcome) {next : Handler ι ο Outcome}
    (makes : rest.Makes [] next) :
    { call with stage := .going next }.HasLeft handler next where
  makes := by
    have along := hasLeft.makes.trans makes
    rwa [List.append_nil] at along
  leaves := .going next
  returned := fun outcome returned => absurd (hasLeft.returned outcome returned) (asks outcome)

/-- The task goes on with the answer to an attempt. -/
theorem HasLeft.answered (hasLeft : call.HasLeft handler rest)
    (asks : ∀ outcome, rest ≠ .finish outcome) {pending : Pending ι ο}
    {answer : Except Status Unit} {exchange : Exchange}
    (makes : rest.Makes [{ call with exchange }.record pending answer] (pending.next answer)) :
    ({ call with exchange }.answered pending answer).HasLeft handler (pending.next answer) where
  makes := hasLeft.makes.trans makes
  leaves := .going _
  returned := fun outcome returned => absurd (hasLeft.returned outcome returned) (asks outcome)

theorem HasLeft.answered_send {pending : Pending ι ο}
    (hasLeft : call.HasLeft handler (.onSend pending.message pending.next))
    (notFinal : pending.isFinal = false) (answer : Except Status Unit) (exchange : Exchange) :
    ({ call with exchange }.answered pending answer).HasLeft handler (pending.next answer) := by
  let attempt := { call with exchange }.record pending answer
  have single : Handler.Makes (.onSend attempt.message pending.next) [attempt]
      (pending.next attempt.answer) := .send notFinal (.nothing _)
  exact hasLeft.answered (fun _ same => nomatch same) single

theorem HasLeft.answered_sendFinal {pending : Pending ι ο}
    (hasLeft : call.HasLeft handler (.onSendFinal pending.message pending.next))
    (isFinal : pending.isFinal = true) (answer : Except Status Unit) (exchange : Exchange) :
    ({ call with exchange }.answered pending answer).HasLeft handler (pending.next answer) := by
  let attempt := { call with exchange }.record pending answer
  have single : Handler.Makes (.onSendFinal attempt.message pending.next) [attempt]
      (pending.next attempt.answer) := .sendFinal isFinal (.nothing _)
  exact hasLeft.answered (fun _ same => nomatch same) single

variable [Payload ο]

theorem HasLeft.proceed (hasLeft : call.HasLeft handler rest) :
    ∃ next, (call.proceed rest).HasLeft handler next := by
  cases rest with
  | finish outcome =>
      refine ⟨.finish outcome, hasLeft.makes, .ending outcome, fun other returned => ?_⟩
      exact congrArg Handler.finish (Option.some.inj returned)
  | onCheck next =>
      exact ⟨_, hasLeft.goesOn (fun _ same => nomatch same) (.check _ (.nothing _))⟩
  | onDraining next =>
      exact ⟨_, hasLeft.goesOn (fun _ same => nomatch same) (.draining _ (.nothing _))⟩
  | onSleep millis next => exact ⟨_, hasLeft.withStage (.sleeping millis _ false next)⟩
  | onDone next => exact ⟨_, hasLeft.withStage (.untilDone next)⟩
  | onReceive next => exact ⟨_, hasLeft.withStage (.receiving next)⟩
  | onSend message next =>
      let pending : Pending ι ο := ⟨message, false, call.exchange.done?, next⟩
      have before : call.HasLeft handler (.onSend pending.message pending.next) := hasLeft
      change ∃ next, (call.begin pending).HasLeft handler next
      unfold begin
      split
      case h_1 status unwritten =>
        exact ⟨_, before.answered_send rfl (.error status) call.exchange⟩
      case h_2 frame written => exact ⟨_, hasLeft.withStage (.placing frame false rfl)⟩
  | onSendFinal message next =>
      let pending : Pending ι ο := ⟨message, true, call.exchange.done?, next⟩
      have before : call.HasLeft handler (.onSendFinal pending.message pending.next) := hasLeft
      change ∃ next, (call.begin pending).HasLeft handler next
      unfold begin
      split
      case h_1 status unwritten =>
        exact ⟨_, before.answered_sendFinal rfl (.error status) call.exchange⟩
      case h_2 frame written => exact ⟨_, hasLeft.withStage (.delivering frame rfl)⟩

/-- A step of the task leads on along the path. -/
theorem HasLeft.go (hasLeft : call.HasLeft handler rest) :
    ∃ next, call.go.HasLeft handler next := by
  -- What is left tells the stage, and each stage has one way on.
  have leaves := hasLeft.leaves
  generalize stage : call.stage = current at leaves
  unfold Streaming.go
  rw [stage]
  cases leaves with
  | going => exact hasLeft.proceed
  | sleeping millis time looked next =>
      have answer (answer : Except Done Unit) :
          ∃ rest, { call with stage := .going (next answer) }.HasLeft handler rest :=
        ⟨_, hasLeft.goesOn (fun _ same => nomatch same) (.sleep answer (.nothing _))⟩
      have look (looked : Bool) :
          ∃ rest, { call with stage := .sleeping time looked next }.HasLeft handler rest :=
        ⟨_, hasLeft.withStage (.sleeping millis time looked next)⟩
      cases looked with
      | false =>
          dsimp only
          split
          case h_1 done isOver => exact answer (.error done)
          case h_2 isOpen => exact look true
      | true =>
          dsimp only
          split
          case isTrue isDue => exact answer (.ok ())
          case isFalse notYet => exact look false
  | untilDone next =>
      dsimp only
      split
      case h_1 done isOver =>
        exact ⟨_, hasLeft.goesOn (fun _ same => nomatch same) (.done done (.nothing _))⟩
      case h_2 isOpen => exact ⟨_, hasLeft⟩
  | receiving next => exact ⟨_, hasLeft⟩
  | @placing frame pending looked notFinal =>
      cases looked with
      | false =>
          dsimp only
          split
          case h_1 done isOver => exact ⟨_, hasLeft.answered_send notFinal _ call.exchange⟩
          case h_2 isOpen => exact ⟨_, hasLeft.withStage (.placing frame true notFinal)⟩
      | true =>
          dsimp only
          split
          case h_1 exchange answer offered =>
            exact ⟨_, hasLeft.answered_send notFinal answer exchange⟩
          case h_2 noRoom => exact ⟨_, hasLeft.withStage (.placing frame false notFinal)⟩
  | @delivering frame pending isFinal =>
      dsimp only
      split
      case h_1 exchange answer offered =>
        exact ⟨_, hasLeft.answered_sendFinal isFinal answer exchange⟩
      case h_2 noRoom => exact ⟨_, hasLeft⟩
  | ending outcome =>
      dsimp only
      split
      case h_1 exchange answer offered =>
        exact ⟨_, hasLeft.makes, .closing outcome, hasLeft.returned⟩
      case h_2 noRoom => exact ⟨_, hasLeft⟩
  | closing outcome => exact ⟨_, hasLeft.makes, .ended outcome, hasLeft.returned⟩
  | ended outcome => exact ⟨_, hasLeft⟩

/-- What happens around the task does not lead off the path, and the end of a
wait for a message leads on. -/
theorem HasLeft.step (hasLeft : call.HasLeft handler rest) (move : Move ι) :
    ∃ next, (call.step move).HasLeft handler next := by
  have around : ∀ exchange, { call with exchange }.HasLeft handler rest :=
    fun _ => ⟨hasLeft.makes, hasLeft.leaves, hasLeft.returned⟩
  cases move with
  | go => exact hasLeft.go
  | pass millis => exact ⟨rest, around _⟩
  | cancel => exact ⟨rest, around _⟩
  | drain => exact ⟨rest, around _⟩
  | read => exact ⟨rest, around _⟩
  | drop => exact ⟨rest, around _⟩
  | bring answer inbound =>
      have leaves := hasLeft.leaves
      unfold Streaming.step
      dsimp only
      split
      case h_1 next stage =>
        rw [stage] at leaves
        cases leaves
        exact ⟨_, (around { call.exchange with inbound }).goesOn (fun _ same => nomatch same)
          (.receive answer (.nothing _))⟩
      case h_2 => exact ⟨_, hasLeft⟩

/-- In every order of moves, a task makes its attempts along a path of its
handler. -/
theorem hasLeft_run (exchange : Exchange) (caller : Caller) (handler : Handler ι ο Outcome)
    (moves : List (Move ι)) :
    ∃ rest, ((start exchange caller handler).run moves).HasLeft handler rest := by
  have lasts : ∀ (moves : List (Move ι)) (call : Streaming ι ο) (rest : Handler ι ο Outcome),
      call.HasLeft handler rest → ∃ rest, (call.run moves).HasLeft handler rest := by
    intro moves
    induction moves with
    | nil => exact fun call rest hasLeft => ⟨rest, hasLeft⟩
    | cons move moves inductionHypothesis =>
        intro call rest hasLeft
        obtain ⟨next, hasLeftThen⟩ := hasLeft.step move
        exact inductionHypothesis (call.step move) next hasLeftThen
  exact lasts moves _ handler (hasLeft_start exchange caller handler)

end Streaming

end RpcEcho
