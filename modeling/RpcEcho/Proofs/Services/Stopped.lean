import RpcEcho.Proofs.Call.Patience
import RpcEcho.Proofs.Services.ServerStream

/-!
# What a caller hears of a cancelled stream

A stream of numbered messages may be cancelled wherever its task stands: before or in a pause, at
its look at the call, or in a `send` that waits for room because the caller reads slowly. It sends
nothing more, unless it has just looked and is about to put a message in; but only the handler's own
waits end with the handler's own words. A `send` that is cut off answers with the words that every
cancelled call has, and the stream passes them on.
-/

namespace RpcEcho

/-! ## Where a task stands in a `send` -/

namespace Stage

variable {ι ο : Type}

/-- The task is in the middle of a `send`. -/
def isSending : Stage ι ο → Bool
  | .placing _ _ _ | .going (.onSend _ _) => true
  | _ => false

/-- The task is in the middle of a `send` and has just seen that the call is not over. -/
def hasLooked : Stage ι ο → Bool
  | .placing _ _ looked => looked
  | _ => false

theorem isSending_of_hasLooked {stage : Stage ι ο} (hasLooked : stage.hasLooked = true) :
    stage.isSending = true := by
  cases stage <;> first | rfl | cases hasLooked

end Stage

namespace Echo

open Api

/-- A stream in the middle of its run. -/
abbrev Sending := Streaming ServerStreamRequest EchoResponse

namespace Series

/-- The frames of the first messages. -/
def firsts (series : Series) (wire : WireFormat) (sent : Nat) : List ResponseFrame :=
  (List.range sent).map (series.frame wire)

theorem length_firsts (series : Series) (wire : WireFormat) (sent : Nat) :
    (series.firsts wire sent).length = sent := by
  rw [firsts, List.length_map, List.length_range]

theorem firsts_succ (series : Series) (wire : WireFormat) (sent : Nat) :
    series.firsts wire (sent + 1) = series.firsts wire sent ++ [series.frame wire sent] := by
  rw [firsts, List.range_succ, List.map_append]
  rfl

theorem firsts_of_le (series : Series) (wire : WireFormat) {sent total : Nat}
    (order : sent ≤ total) : series.firsts wire sent <+: series.firsts wire total := by
  obtain ⟨more, rfl⟩ := Nat.exists_eq_add_of_le order
  rw [firsts, firsts, List.range_add, List.map_append]
  exact List.prefix_append _ _

/-! ## Before the call is cancelled -/

/-- The way of a stream that nothing ends early. -/
inductive Course (series : Series) (wire : WireFormat) :
    Stage ServerStreamRequest EchoResponse → List ResponseFrame → Prop
  | going {sent : Nat} (atMost : sent ≤ series.count) :
      Course series wire (.going (series.going sent)) (series.firsts wire sent)
  | sleeping {sent time : Nat} {looked : Bool} (isLess : sent < series.count) :
      Course series wire (.sleeping time looked (series.woken sent)) (series.firsts wire sent)
  | checking {sent : Nat} (isLess : sent < series.count) :
      Course series wire (.going (.onCheck (series.looked sent))) (series.firsts wire sent)
  | sending {sent : Nat} (isLess : sent < series.count) :
      Course series wire (.going (.onSend (series.message sent) (series.answered sent)))
        (series.firsts wire sent)
  | placing {sent : Nat} {looked : Bool} (isLess : sent < series.count)
      {pending : Pending ServerStreamRequest EchoResponse}
      (next : pending.next = series.answered sent) :
      Course series wire (.placing (series.frame wire sent) pending looked)
        (series.firsts wire sent)
  | ends {steps : Nat} {stage : Stage ServerStreamRequest EchoResponse}
      {frames : List ResponseFrame}
      (ends : Streaming.Ends wire (series.firsts wire series.count) (.ok Headers.empty) steps stage
        frames) :
      Course series wire stage frames

variable {series : Series} {wire : WireFormat} {call : Sending}

/-- A task that goes on with a message begins to pause, or looks at the call. -/
theorem proceed_going {sent : Nat} (isLess : sent < series.count) :
    call.proceed (series.going sent) =
        { call with
          stage := .sleeping (call.exchange.now + series.pause) false (series.woken sent) } ∨
      call.proceed (series.going sent) =
        { call with stage := .going (series.looked sent call.exchange.done?) } := by
  rw [going_of_lt series isLess]
  split
  · exact .inl rfl
  · exact .inr rfl

theorem begin_message (distinct : series.HasDistinctNames) (sameWire : call.exchange.wire = wire)
    {sent : Nat} {pending : Pending ServerStreamRequest EchoResponse}
    (isMessage : pending.message = series.message sent) (notFinal : pending.isFinal = false) :
    call.begin pending =
      { call with stage := .placing (series.frame wire sent) pending false } := by
  rw [Streaming.begin, isMessage, frameOf_message distinct, notFinal, sameWire]
  rfl

theorem Course.go (distinct : series.HasDistinctNames) (isOpen : call.exchange.IsOpen)
    (sameWire : call.exchange.wire = wire)
    (course : Course series wire call.stage call.contents) :
    Course series wire call.go.stage call.go.contents := by
  generalize stage : call.stage = current at course
  generalize put : call.contents = frames at course
  cases course with
  | @going sent atMost =>
      rw [Streaming.go, stage]
      dsimp only
      rcases Nat.lt_or_eq_of_le atMost with isLess | rfl
      · rcases @proceed_going series call sent isLess with pauses | looks
        · rw [pauses]
          exact put ▸ .sleeping isLess
        · rw [looks, isOpen.done?]
          exact put ▸ .sending isLess
      · rw [going_of_count series (Nat.le_refl _)]
        exact put ▸ .ends .ending
  | @sleeping sent time looked isLess =>
      rw [Streaming.go, stage]
      cases looked with
      | false =>
          dsimp only
          rw [isOpen.done?]
          exact put ▸ .sleeping isLess
      | true =>
          dsimp only
          split
          · exact put ▸ .checking isLess
          · exact put ▸ .sleeping isLess
  | @checking sent isLess =>
      rw [Streaming.go, stage]
      dsimp only [Streaming.proceed]
      rw [isOpen.done?]
      exact put ▸ .sending isLess
  | @sending sent isLess =>
      rw [Streaming.go, stage]
      dsimp only [Streaming.proceed]
      rw [begin_message distinct sameWire rfl rfl]
      exact put ▸ .placing isLess rfl
  | @placing sent looked isLess pending next =>
      rw [Streaming.go, stage]
      cases looked with
      | false =>
          dsimp only
          rw [isOpen.done?]
          exact put ▸ .placing isLess next
      | true =>
          dsimp only
          rcases call.exchange.offer_cases (series.frame wire sent) with
            ⟨isGone, _⟩ | ⟨_, _, offer⟩ | ⟨_, _, offer⟩
          · exact absurd (isOpen.stays.symm.trans isGone) Bool.false_ne_true
          · rw [offer]
            change Course series wire (.going (pending.next (.ok ())))
              (call.exchange.put _).outbound.contents
            rw [Streaming.contents_put, put, next, ← firsts_succ]
            exact .going isLess
          · rw [offer]
            exact put ▸ .placing isLess next
  | ends ends =>
      subst stage put
      rcases ends.go_cases sameWire isOpen.stays with endsThen | ⟨_, endsThen⟩
      · exact .ends endsThen
      · exact .ends endsThen

theorem Course.run (distinct : series.HasDistinctNames)
    (kind : call.exchange.InFormat Exchange.IsOpen wire)
    (course : Course series wire call.stage call.contents)
    (moves : List (Move ServerStreamRequest)) (patient : ∀ move ∈ moves, move.isPatient = true) :
    (call.run moves).exchange.InFormat Exchange.IsOpen wire ∧
      Course series wire (call.run moves).stage (call.run moves).contents :=
  Streaming.invariant_run (Exchange.InFormat.of_patient Exchange.IsOpen.of_patient)
    (fun kind course => Course.go distinct kind.1 kind.2 course) kind course moves patient

/-! ## After the call is cancelled -/

/-- What a stream makes of its being cancelled: how many messages it sends in all, and how it ends.
It was found somewhere, after it had sent some messages. -/
inductive Stops (count : Nat) (found : Stage ServerStreamRequest EchoResponse) (sent : Nat) :
    Nat → Outcome → Prop where
  /-- The `send` is cut off. -/
  | refused (isSending : found.isSending = true) :
      Stops count found sent sent (.error (Status.of .canceled "context canceled"))
  | stopped (isElsewhere : found.isSending = false) :
      Stops count found sent sent (.error (Status.of .canceled "stream canceled"))
  /-- One more message goes out, and then the stream finds the call cancelled. -/
  | late (hasLooked : found.hasLooked = true) (isLess : sent + 1 < count) :
      Stops count found sent (sent + 1) (.error (Status.of .canceled "stream canceled"))
  /-- One more message goes out, which is the last. -/
  | final (hasLooked : found.hasLooked = true) (isLast : sent + 1 = count) :
      Stops count found sent (sent + 1) (.ok Headers.empty)

theorem Stops.sent_le {count sent total : Nat} {found : Stage ServerStreamRequest EchoResponse}
    {outcome : Outcome} (stops : Stops count found sent total outcome) : sent ≤ total := by
  cases stops with
  | refused | stopped => exact Nat.le_refl _
  | late | final => exact Nat.le_succ _

/-- The way of a cancelled stream to its end, with the steps that are left until it has returned. -/
inductive Stopping (series : Series) (wire : WireFormat) (total : Nat) (outcome : Outcome) :
    Nat → Stage ServerStreamRequest EchoResponse → List ResponseFrame → Prop
  | going (isLess : total < series.count) (isStopped : outcome = .error (stopped .canceled)) :
      Stopping series wire total outcome 3 (.going (series.going total)) (series.firsts wire total)
  | waking {time : Nat} (isStopped : outcome = .error (stopped .canceled)) :
      Stopping series wire total outcome 3 (.sleeping time true (series.woken total))
        (series.firsts wire total)
  | sleeping {time : Nat} (isStopped : outcome = .error (stopped .canceled)) :
      Stopping series wire total outcome 2 (.sleeping time false (series.woken total))
        (series.firsts wire total)
  | checking (isStopped : outcome = .error (stopped .canceled)) :
      Stopping series wire total outcome 2 (.going (.onCheck (series.looked total)))
        (series.firsts wire total)
  | sending (isRefused : outcome = .error Done.canceled.status) :
      Stopping series wire total outcome 3
        (.going (.onSend (series.message total) (series.answered total))) (series.firsts wire total)
  | placing (isRefused : outcome = .error Done.canceled.status)
      {pending : Pending ServerStreamRequest EchoResponse}
      (next : pending.next = series.answered total) :
      Stopping series wire total outcome 2 (.placing (series.frame wire total) pending false)
        (series.firsts wire total)
  | ends {steps left : Nat} {stage : Stage ServerStreamRequest EchoResponse}
      {frames : List ResponseFrame} (atMost : left ≤ steps + 2)
      (ends : Streaming.Ends wire (series.firsts wire total) outcome left stage frames) :
      Stopping series wire total outcome steps stage frames

theorem Stopping.go {total steps : Nat} {outcome : Outcome} (distinct : series.HasDistinctNames)
    (isCancelled : call.exchange.IsCancelled) (sameWire : call.exchange.wire = wire)
    (stopping : Stopping series wire total outcome steps call.stage call.contents) :
    Stopping series wire total outcome (steps - 1) call.go.stage call.go.contents := by
  generalize stage : call.stage = current at stopping
  generalize put : call.contents = frames at stopping
  cases stopping with
  | going isLess isStopped =>
      rw [Streaming.go, stage]
      dsimp only
      rcases @proceed_going series call total isLess with pauses | looks
      · rw [pauses]
        exact put ▸ .sleeping isStopped
      · rw [looks, isCancelled.done?]
        exact put ▸ isStopped ▸ .ends (by decide) .finishing
  | @waking time isStopped =>
      rw [Streaming.go, stage]
      dsimp only
      by_cases awake : time ≤ call.exchange.now
      · rw [if_pos awake]
        exact put ▸ .checking isStopped
      · rw [if_neg awake]
        exact put ▸ .sleeping isStopped
  | sleeping isStopped =>
      rw [Streaming.go, stage]
      dsimp only
      rw [isCancelled.done?]
      exact put ▸ isStopped ▸ .ends (by decide) .finishing
  | checking isStopped =>
      rw [Streaming.go, stage]
      dsimp only [Streaming.proceed]
      rw [isCancelled.done?]
      exact put ▸ isStopped ▸ .ends (by decide) .finishing
  | sending isRefused =>
      rw [Streaming.go, stage]
      dsimp only [Streaming.proceed]
      rw [begin_message distinct sameWire rfl rfl]
      exact put ▸ .placing isRefused rfl
  | @placing isRefused pending next =>
      rw [Streaming.go, stage]
      dsimp only
      rw [isCancelled.done?]
      change Stopping series wire total outcome 1
        (.going (pending.next (.error Done.canceled.status))) call.contents
      rw [next, put]
      exact isRefused ▸ .ends (by decide) .finishing
  | ends atMost ends =>
      subst stage put
      rcases ends.go_cases sameWire isCancelled.stays with endsThen | ⟨⟨rfl, _⟩, endsThen⟩
      · exact .ends (by omega) endsThen
      · exact .ends (by omega) endsThen

/-- The way of a stream that was cancelled somewhere: whether a message that is about to be put in
goes out is not settled before the task takes its next step. -/
inductive Cut (series : Series) (wire : WireFormat) (found : Stage ServerStreamRequest EchoResponse)
    (sent : Nat) : Nat → Stage ServerStreamRequest EchoResponse → List ResponseFrame → Prop
  | looked (hasLooked : found.hasLooked = true) (isLess : sent < series.count)
      {pending : Pending ServerStreamRequest EchoResponse}
      (next : pending.next = series.answered sent) :
      Cut series wire found sent 4 (.placing (series.frame wire sent) pending true)
        (series.firsts wire sent)
  | settled {steps left total : Nat} {outcome : Outcome}
      {stage : Stage ServerStreamRequest EchoResponse} {frames : List ResponseFrame}
      (atMost : left ≤ steps) (stops : Stops series.count found sent total outcome)
      (stopping : Stopping series wire total outcome left stage frames) :
      Cut series wire found sent steps stage frames

theorem Cut.go {found : Stage ServerStreamRequest EchoResponse} {sent steps : Nat}
    (distinct : series.HasDistinctNames) (isCancelled : call.exchange.IsCancelled)
    (sameWire : call.exchange.wire = wire)
    (cut : Cut series wire found sent steps call.stage call.contents) :
    Cut series wire found sent (steps - 1) call.go.stage call.go.contents := by
  generalize stage : call.stage = current at cut
  generalize put : call.contents = frames at cut
  cases cut with
  | @looked hasLooked isLess pending next =>
      rw [Streaming.go, stage]
      dsimp only
      rcases call.exchange.offer_cases (series.frame wire sent) with
        ⟨isGone, _⟩ | ⟨_, _, offer⟩ | ⟨_, _, offer⟩
      · exact absurd (isCancelled.stays.symm.trans isGone) Bool.false_ne_true
      · rw [offer]
        change Cut series wire found sent 3 (.going (pending.next (.ok ())))
          (call.exchange.put _).outbound.contents
        rw [Streaming.contents_put, put, next, ← firsts_succ]
        rcases Nat.lt_or_eq_of_le isLess with more | isLast
        · exact .settled (Nat.le_refl _) (.late hasLooked more) (.going more rfl)
        · refine .settled (Nat.le_add_left 1 2) (.final hasLooked isLast) ?_
          change Stopping series wire _ _ 1 (.going (series.going (sent + 1))) _
          rw [going_of_count series (Nat.le_of_eq isLast.symm)]
          exact .ends (by decide) .finishing
      · rw [offer]
        refine .settled (Nat.le_succ 2) (.refused (Stage.isSending_of_hasLooked hasLooked)) ?_
        exact put ▸ .placing rfl next
  | settled atMost stops stopping =>
      subst stage put
      exact .settled (Nat.sub_le_sub_right atMost 1) stops
        (stopping.go distinct isCancelled sameWire)

theorem isSending_going {sent : Nat} (isLess : sent < series.count) :
    (Stage.going (series.going sent)).isSending = false := by
  rw [going_of_lt series isLess]
  split <;> rfl

/-- A stream stands on its way when it is cancelled, with a number of messages behind it. -/
theorem Course.cut {stage : Stage ServerStreamRequest EchoResponse} {frames : List ResponseFrame}
    (isLess : frames.length < series.count) (course : Course series wire stage frames) :
    frames = series.firsts wire frames.length ∧
      Cut series wire stage frames.length 4 stage frames := by
  cases course with
  | @going sent atMost =>
      rw [length_firsts] at isLess ⊢
      exact ⟨rfl, .settled (by decide) (.stopped (isSending_going isLess)) (.going isLess rfl)⟩
  | @sleeping sent time looked _ =>
      rw [length_firsts] at isLess ⊢
      cases looked with
      | false => exact ⟨rfl, .settled (by decide) (.stopped rfl) (.sleeping rfl)⟩
      | true => exact ⟨rfl, .settled (by decide) (.stopped rfl) (.waking rfl)⟩
  | @checking sent _ =>
      rw [length_firsts] at isLess ⊢
      exact ⟨rfl, .settled (by decide) (.stopped rfl) (.checking rfl)⟩
  | @sending sent _ =>
      rw [length_firsts] at isLess ⊢
      exact ⟨rfl, .settled (by decide) (.refused rfl) (.sending rfl)⟩
  | @placing sent looked _ pending next =>
      rw [length_firsts] at isLess ⊢
      cases looked with
      | false => exact ⟨rfl, .settled (by decide) (.refused rfl) (.placing rfl next)⟩
      | true => exact ⟨rfl, .looked rfl isLess next⟩
  | ends ends =>
      have all : series.count ≤ frames.length := by
        rw [← length_firsts series wire series.count]
        cases ends <;> simp
      omega

theorem Stopping.accounts {total steps : Nat} {outcome : Outcome}
    {stage : Stage ServerStreamRequest EchoResponse} {frames : List ResponseFrame}
    (stopping : Stopping series wire total outcome steps stage frames) :
    Streaming.Accounts (series.firsts wire total ++ [.endOfStream wire outcome]) 1 stage
      frames := by
  cases stopping with
  | ends atMost ends => exact ⟨ends.accounts.isFront, ends.accounts.isWhole, by simp⟩
  | _ => exact ⟨List.prefix_append _ _, by simp, by simp⟩

theorem Stopping.returned {total : Nat} {outcome : Outcome}
    {stage : Stage ServerStreamRequest EchoResponse} {frames : List ResponseFrame}
    (stopping : Stopping series wire total outcome 0 stage frames) :
    (∃ outcome, stage = .ending outcome) ∨ stage = .closing ∨ stage = .ended := by
  cases stopping with
  | ends atMost ends => exact ends.returned atMost

/-! ## What the caller hears -/

/-- The steps that a cancelled stream has left at most. -/
def lastSteps : List (Move ServerStreamRequest) := List.replicate 4 .go

/-- The caller reads, and the task puts its last frame in. -/
def lastReads : List (Move ServerStreamRequest) := .read :: .go :: .go :: List.replicate 17 .read

theorem patient_of_mem_lastSteps : ∀ move ∈ lastSteps, move.isPatient = true := by
  intro move member
  rw [List.eq_of_mem_replicate member]
  rfl

theorem patient_of_mem_lastReads : ∀ move ∈ lastReads, move.isPatient = true := by
  intro move member
  simp only [lastReads, List.mem_cons] at member
  rcases member with rfl | rfl | rfl | isLast
  · rfl
  · rfl
  · rfl
  · rw [List.eq_of_mem_replicate isLast]
    rfl

section Hears

variable {total steps sent : Nat} {outcome : Outcome}
variable {found : Stage ServerStreamRequest EchoResponse}

theorem Stopping.run (distinct : series.HasDistinctNames)
    (kind : call.exchange.InFormat Exchange.IsCancelled wire)
    (stopping : Stopping series wire total outcome steps call.stage call.contents)
    (moves : List (Move ServerStreamRequest)) (patient : ∀ move ∈ moves, move.isPatient = true) :
    (call.run moves).exchange.InFormat Exchange.IsCancelled wire ∧
      Stopping series wire total outcome (steps - moves.countP Move.isGo) (call.run moves).stage
        (call.run moves).contents :=
  Streaming.account_run (Exchange.InFormat.of_patient Exchange.IsCancelled.of_patient)
    (fun kind stopping => Stopping.go distinct kind.1 kind.2 stopping) kind stopping moves patient

theorem Cut.run (distinct : series.HasDistinctNames)
    (kind : call.exchange.InFormat Exchange.IsCancelled wire)
    (cut : Cut series wire found sent steps call.stage call.contents)
    (moves : List (Move ServerStreamRequest)) (patient : ∀ move ∈ moves, move.isPatient = true) :
    (call.run moves).exchange.InFormat Exchange.IsCancelled wire ∧
      Cut series wire found sent (steps - moves.countP Move.isGo) (call.run moves).stage
        (call.run moves).contents :=
  Streaming.account_run (Exchange.InFormat.of_patient Exchange.IsCancelled.of_patient)
    (fun kind cut => Cut.go distinct kind.1 kind.2 cut) kind cut moves patient

theorem Cut.settled_of_zero {stage : Stage ServerStreamRequest EchoResponse}
    {frames : List ResponseFrame} (cut : Cut series wire found sent 0 stage frames) :
    ∃ total outcome, Stops series.count found sent total outcome ∧
      Stopping series wire total outcome 0 stage frames := by
  cases cut with
  | settled atMost stops stopping =>
      rw [Nat.le_zero.mp atMost] at stopping
      exact ⟨_, _, stops, stopping⟩

/-- A stream that has returned ends, and its caller hears all of it. -/
theorem Stopping.hears_last (distinct : series.HasDistinctNames) (orderly : call.Orderly)
    (kind : call.exchange.InFormat Exchange.IsCancelled wire)
    (stopping : Stopping series wire total outcome 0 call.stage call.contents) :
    (call.run lastReads).exchange.outbound.endedAt.isSome ∧
      (call.run lastReads).exchange.outbound.received =
        series.firsts wire total ++ [.endOfStream wire outcome] := by
  have ends := orderly.endedAt_of_returned kind.1.stays stopping.returned
  obtain ⟨_, stoppingThen⟩ := stopping.run distinct kind lastReads patient_of_mem_lastReads
  exact ⟨ends, ((orderly.run lastReads).received_of_accounts stoppingThen.accounts).2 ends⟩

/-- What the caller has heard of a cancelled stream at some time, and what it hears when it reads
on. -/
theorem Cut.hears (distinct : series.HasDistinctNames) (orderly : call.Orderly)
    (kind : call.exchange.InFormat Exchange.IsCancelled wire) (few : steps ≤ 4)
    (cut : Cut series wire found sent steps call.stage call.contents) :
    ∃ total outcome, Stops series.count found sent total outcome ∧
      let answer := series.firsts wire total ++ [.endOfStream wire outcome]
      let last := (call.run lastSteps).run lastReads
      call.exchange.outbound.received <+: answer ∧
      (call.exchange.outbound.endedAt.isSome → call.exchange.outbound.received = answer) ∧
      last.exchange.outbound.endedAt.isSome ∧ last.exchange.outbound.received = answer := by
  have orderlyThen : (call.run lastSteps).Orderly := orderly.run lastSteps
  have spent : steps - lastSteps.countP Move.isGo = 0 := Nat.sub_eq_zero_of_le few
  generalize stage : call.stage = current at cut
  generalize put : call.contents = frames at cut
  cases cut with
  | @looked hasLooked isLess pending next =>
      -- Nothing is settled yet, and nothing but messages has been put in.
      have cutNow : Cut series wire found sent 4 call.stage call.contents := by
        rw [stage, put]
        exact .looked hasLooked isLess next
      obtain ⟨kindThen, cutThen⟩ := cutNow.run distinct kind lastSteps patient_of_mem_lastSteps
      rw [spent] at cutThen
      obtain ⟨total, outcome, stops, stoppingThen⟩ := cutThen.settled_of_zero
      refine ⟨total, outcome, stops, ?_, fun ends => ?_,
        stoppingThen.hears_last distinct orderlyThen kindThen⟩
      · have isFront : call.exchange.outbound.received <+: series.firsts wire sent :=
          put ▸ List.prefix_append _ _
        exact (isFront.trans (firsts_of_le series wire stops.sent_le)).trans
          (List.prefix_append _ _)
      · rcases orderly.stage_of_placed (orderly.ended ends).2 with isClosing | isEnded
        · cases stage.symm.trans isClosing
        · cases stage.symm.trans isEnded
  | @settled _ left total outcome _ _ atMost stops stopping =>
      subst stage put
      obtain ⟨kindThen, stoppingThen⟩ :=
        stopping.run distinct kind lastSteps patient_of_mem_lastSteps
      have none : left - lastSteps.countP Move.isGo = 0 :=
        Nat.sub_eq_zero_of_le (Nat.le_trans atMost few)
      rw [none] at stoppingThen
      obtain ⟨takes, takesAll⟩ := orderly.received_of_accounts stopping.accounts
      exact ⟨total, outcome, stops, takes, takesAll,
        stoppingThen.hears_last distinct orderlyThen kindThen⟩

end Hears

end Series

/-- A stream as it starts. -/
def sending (headers : Headers) (asked : ServerStreamRequest) (exchange : Exchange)
    (caller : Caller) : Sending :=
  Streaming.start exchange caller (serverStream (Metadata.ofHeaders headers) asked)

/-- A stream without a deadline that is cancelled while messages are left, however its caller reads
and wherever it stands: it has sent the first messages, and the caller gets them and an end that
`Series.Stops` tells. -/
theorem serverStream_stops {headers : Headers} (wellFormed : headers.IsWellFormed)
    (asked : ServerStreamRequest) (exchange : Exchange) (caller : Caller)
    (before after : List (Move ServerStreamRequest))
    {ends : Move ServerStreamRequest} (isEnd : ends = .cancel ∨ ends = .drain)
    (unlimited : exchange.cancellation.deadline = none)
    (notCancelled : exchange.cancellation.cancelledAt = none)
    (notDraining : exchange.drainAt = none)
    (patientBefore : ∀ move ∈ before, move.isPatient = true)
    (patientAfter : ∀ move ∈ after, move.isPatient = true)
    (isLeft : ((sending headers asked exchange caller).run before).contents.length <
      countOf asked) :
    let call := (sending headers asked exchange caller).run before
    let later := call.run (ends :: after)
    let last := (later.run Series.lastSteps).run Series.lastReads
    ∃ (payload : Nat → Bytes) (total : Nat) (outcome : Outcome),
      (∀ place < countOf asked, Says exchange.wire headers
        (numbered asked.message (place + 1) (countOf asked)) (payload place)) ∧
      let messages (count : Nat) :=
        (List.range count).map fun place => ResponseFrame.message (payload place)
      let answer := messages total ++ [.endOfStream exchange.wire outcome]
      call.contents = messages call.contents.length ∧
      Series.Stops (countOf asked) call.stage call.contents.length total outcome ∧
      later.exchange.outbound.received <+: answer ∧
      (later.exchange.outbound.endedAt.isSome → later.exchange.outbound.received = answer) ∧
      last.exchange.outbound.endedAt.isSome ∧ last.exchange.outbound.received = answer := by
  intro call later last
  let series := Series.ofRequest (Metadata.ofHeaders headers) asked
  have distinct : series.HasDistinctNames :=
    (Metadata.holdsExactly_ofHeaders wellFormed.distinct).distinct
  let start := sending headers asked exchange caller
  have isOpen : start.exchange.IsOpen :=
    ⟨unlimited, notCancelled, notDraining, decide_eq_false (Caller.next_ne_gone _ _)⟩
  have begins : Series.Course series exchange.wire start.stage start.contents :=
    .going (Nat.zero_le _)
  obtain ⟨⟨openThen, sameWire⟩, course⟩ :=
    begins.run distinct ⟨isOpen, rfl⟩ before patientBefore
  have orderly : call.Orderly := (Streaming.orderly_start exchange caller _).run before
  obtain ⟨isFront, cut⟩ := course.cut isLeft
  let cancelled := call.step ends
  have kind : cancelled.exchange.InFormat Exchange.IsCancelled exchange.wire := by
    rcases isEnd with rfl | rfl
    · exact ⟨openThen.cancel, sameWire⟩
    · exact ⟨openThen.drain.isCancelled, sameWire⟩
  have cutThen : Series.Cut series exchange.wire call.stage call.contents.length 4 cancelled.stage
      cancelled.contents := by
    rcases isEnd with rfl | rfl <;> exact cut
  obtain ⟨kindLater, cutLater⟩ := cutThen.run distinct kind after patientAfter
  obtain ⟨total, outcome, stops, hears⟩ := cutLater.hears distinct
    ((orderly.step ends).run after) kindLater (Nat.sub_le _ _)
  exact ⟨series.payload exchange.wire.codec, total, outcome,
    fun place _ => says_message exchange.wire wellFormed series rfl place, isFront, stops, hears⟩

/-- More messages than the queue has places, without pauses. -/
def crowd : ServerStreamRequest := ⟨"m", 17, 0⟩

/-- A call of which such a request has come. -/
def crowded : Exchange where
  wire := .grpc .proto
  cancellation := .never
  inbound := Inbound.ofBody ⟨[], .complete⟩
  outbound := Outbound.unheard

/-- Sixteen messages and the end of a call that was cancelled. -/
def HearsSixteen (frames : List ResponseFrame) (text : String) : Prop :=
  ∃ payload : Nat → Bytes,
    frames = ((List.range 16).map fun place => ResponseFrame.message (payload place)) ++
      [.endOfStream (.grpc .proto) (.error (Status.of .canceled text))]

/-- A caller that has not read yet leaves the stream waiting in its seventeenth `send`. If the call
is cancelled there, the caller is not told of it in the words of the stream; four steps before, it
is. -/
theorem serverStream_stops_crowd :
    let start := sending noteHeaders crowd crowded {}
    let heard (before : Nat) :=
      (((start.run (List.replicate before .go)).run [.cancel]).run Series.lastSteps).run
        Series.lastReads
    HearsSixteen (heard 68).exchange.outbound.received "context canceled" ∧
      HearsSixteen (heard 64).exchange.outbound.received "stream canceled" := by
  intro start heard
  have patient : ∀ steps, ∀ move ∈ List.replicate steps (.go : Move ServerStreamRequest),
      move.isPatient = true := by
    intro steps move member
    rw [List.eq_of_mem_replicate member]
    rfl
  have stops (before : Nat)
      (sent : (start.run (List.replicate before .go)).contents.length = 16) :
      ∃ (payload : Nat → Bytes) (total : Nat) (outcome : Outcome),
        Series.Stops 17 (start.run (List.replicate before .go)).stage 16 total outcome ∧
        (heard before).exchange.outbound.received =
          ((List.range total).map fun place => ResponseFrame.message (payload place)) ++
            [.endOfStream (.grpc .proto) outcome] := by
    obtain ⟨payload, total, outcome, _, _, isStop, _, _, _, received⟩ :=
      serverStream_stops (by decide : noteHeaders.IsWellFormed) crowd crowded {}
        (List.replicate before .go) [] (.inl rfl) rfl rfl rfl (patient before)
        (fun move member => nomatch member) (sent ▸ by decide)
    change Series.Stops 17 _ (start.run (List.replicate before .go)).contents.length _ _ at isStop
    rw [sent] at isStop
    exact ⟨payload, total, outcome, isStop, received⟩
  constructor
  · have isSending : (start.run (List.replicate 68 .go)).stage.isSending = true := by decide +kernel
    have notLooked : (start.run (List.replicate 68 .go)).stage.hasLooked = false := by
      decide +kernel
    obtain ⟨payload, total, outcome, isStop, received⟩ := stops 68 (by decide +kernel)
    cases isStop with
    | refused => exact ⟨payload, received⟩
    | stopped isElsewhere => cases isSending.symm.trans isElsewhere
    | late hasLooked | final hasLooked => cases notLooked.symm.trans hasLooked
  · have isElsewhere : (start.run (List.replicate 64 .go)).stage.isSending = false := by
      decide +kernel
    obtain ⟨payload, total, outcome, isStop, received⟩ := stops 64 (by decide +kernel)
    cases isStop with
    | refused isSending => cases isElsewhere.symm.trans isSending
    | stopped => exact ⟨payload, received⟩
    | late hasLooked | final hasLooked =>
        cases isElsewhere.symm.trans (Stage.isSending_of_hasLooked hasLooked)

end Echo

end RpcEcho
