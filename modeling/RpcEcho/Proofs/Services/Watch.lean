import RpcEcho.Proofs.Api.Replies
import RpcEcho.Proofs.Call.Patience
import RpcEcho.Services.Health

/-!
# What a watcher hears of the drain

A watch tells one state and waits for the end of the call, which without a deadline is the drain of
the server. What its caller hears then depends on how far the task had come: the first message goes
out only if the task has seen that the call was open, which is its third step. From there on the
caller hears that state, the end of service if it asked for the whole server, and a good end;
before, it hears nothing but that the call was cancelled.
-/

namespace RpcEcho.Health

open Api

/-! ## The watch as a program -/

/-- What a watch does at the end of the call. -/
def left (request : HealthCheckRequest) :
    Done → Handler HealthCheckRequest HealthCheckResponse Outcome
  | .deadlineExceeded => .finish (.error Done.deadlineExceeded.status)
  | .canceled =>
    if request.service.isEmpty then
      .onDraining fun isDraining =>
        if isDraining then
          .onSendFinal (.of .notServing) fun _ => .finish (.ok Headers.empty)
        else .finish (.ok Headers.empty)
    else .finish (.ok Headers.empty)

/-- What a watch does with the answer to its first message. -/
def told (request : HealthCheckRequest) :
    Except Status Unit → Handler HealthCheckRequest HealthCheckResponse Outcome
  | .error status => .finish (.error status)
  | .ok () => .onDone (left request)

/-- The state that a watch tells first. -/
def first (known : List String) (request : HealthCheckRequest) (isDraining : Bool) :
    ServingStatus :=
  (status? known isDraining request.service).getD .serviceUnknown

theorem watch_eq (known : List String) (request : HealthCheckRequest) :
    watch known request = .onDraining fun isDraining =>
      .onSend (.of (first known request isDraining)) (told request) := by
  simp only [watch, Handler.isDraining, Handler.send, Handler.untilDone, Handler.sendFinal, bind,
    Handler.bind, pure]
  refine congrArg Handler.onDraining ?_
  funext isDraining
  refine congrArg (Handler.onSend _) ?_
  funext answer
  cases answer with
  | error status => rfl
  | ok _ =>
      refine congrArg Handler.onDone ?_
      funext done
      cases done <;> rfl

/-- The octets that tell a state. -/
def payload (codec : Codec) (state : ServingStatus) : Bytes :=
  match Payload.encode codec (HealthCheckResponse.of state) with
  | .ok payload => payload
  | .error _ => []

theorem encode_state (codec : Codec) (state : ServingStatus) :
    Payload.encode codec (HealthCheckResponse.of state) = .ok (payload codec state) := by
  obtain ⟨octets, encoded⟩ := exists_encode_state codec state
  rw [payload, encoded]

theorem decode_payload (codec : Codec) (state : ServingStatus) :
    Payload.decode codec (payload codec state) = .ok (HealthCheckResponse.of state) := by
  refine decode_encode_state (fitsWord_number state) (encode_state codec state) ?_
  cases codec <;> cases state <;> decide +kernel

/-- The frame that tells a state. -/
def frame (wire : WireFormat) (state : ServingStatus) : ResponseFrame :=
  .message (payload wire.codec state)

abbrev Watching := Streaming HealthCheckRequest HealthCheckResponse

theorem frameOf_state (exchange : Exchange) (state : ServingStatus) :
    exchange.frameOf (HealthCheckResponse.of state) = .ok (frame exchange.wire state) := by
  rw [Exchange.frameOf, encode_state]
  rfl

/-! ## Before the drain -/

section Course

variable (known : List String) (request : HealthCheckRequest) (wire : WireFormat)

/-- The way of a watch until it waits for the end of the call. -/
inductive Course : Nat → Stage HealthCheckRequest HealthCheckResponse → List ResponseFrame → Prop
  | asking : Course 5 (.going (watch known request)) []
  | telling : Course 4 (.going (.onSend (.of (first known request false)) (told request))) []
  | looking {pending : Pending HealthCheckRequest HealthCheckResponse}
      (next : pending.next = told request) :
      Course 3 (.placing (frame wire (first known request false)) pending false) []
  | placing {pending : Pending HealthCheckRequest HealthCheckResponse}
      (next : pending.next = told request) :
      Course 2 (.placing (frame wire (first known request false)) pending true) []
  | turning : Course 1 (.going (.onDone (left request))) [frame wire (first known request false)]
  | waiting : Course 0 (.untilDone (left request)) [frame wire (first known request false)]

/-- The way of a watch that finds the call cancelled before it has told anything. -/
inductive Failing : Nat → Stage HealthCheckRequest HealthCheckResponse → List ResponseFrame → Prop
  | asking : Failing 6 (.going (watch known request)) []
  | telling (state : ServingStatus) : Failing 5 (.going (.onSend (.of state) (told request))) []
  | looking {pending : Pending HealthCheckRequest HealthCheckResponse}
      (next : pending.next = told request) (state : ServingStatus) :
      Failing 4 (.placing (frame wire state) pending false) []
  | ends {steps : Nat} {stage : Stage HealthCheckRequest HealthCheckResponse}
      {frames : List ResponseFrame}
      (ends : Streaming.Ends wire [] (.error Done.canceled.status) steps stage frames) :
      Failing steps stage frames

end Course

variable {known : List String} {request : HealthCheckRequest} {wire : WireFormat}
variable {call : Watching} {steps : Nat}

theorem Course.go (isOpen : call.exchange.IsOpen) (sameWire : call.exchange.wire = wire)
    (course : Course known request wire steps call.stage call.contents) :
    Course known request wire (steps - 1) call.go.stage call.go.contents := by
  generalize stage : call.stage = current at course
  generalize put : call.contents = frames at course
  unfold Streaming.go
  cases course with
  | asking =>
      rw [stage, watch_eq]
      dsimp only [Streaming.proceed]
      rw [isOpen.notDraining]
      exact put ▸ .telling
  | telling =>
      rw [stage]
      dsimp only [Streaming.proceed]
      rw [Streaming.begin, frameOf_state, sameWire]
      exact put ▸ .looking rfl
  | looking next =>
      rw [stage]
      dsimp only
      rw [isOpen.done?]
      exact put ▸ .placing next
  | @placing pending next =>
      rw [stage]
      dsimp only
      rw [Streaming.offer_of_few isOpen.stays (by rw [put]; decide)]
      change Course known request wire 1 (.going (pending.next (.ok ())))
        (call.exchange.put _).outbound.contents
      rw [Streaming.contents_put, put, next]
      exact .turning
  | turning =>
      rw [stage]
      exact put ▸ .waiting
  | waiting =>
      rw [stage]
      dsimp only
      rw [isOpen.done?]
      simp only [stage, put]
      exact .waiting

theorem Failing.go (draining : call.exchange.IsDraining) (sameWire : call.exchange.wire = wire)
    (failing : Failing known request wire steps call.stage call.contents) :
    Failing known request wire (steps - 1) call.go.stage call.go.contents := by
  generalize stage : call.stage = current at failing
  generalize put : call.contents = frames at failing
  cases failing with
  | asking =>
      rw [Streaming.go, stage, watch_eq]
      exact put ▸ .telling _
  | telling state =>
      rw [Streaming.go, stage]
      dsimp only [Streaming.proceed]
      rw [Streaming.begin, frameOf_state, sameWire]
      exact put ▸ .looking rfl state
  | @looking pending next state =>
      rw [Streaming.go, stage]
      dsimp only
      rw [draining.done?]
      change Failing known request wire 3 (.going (pending.next (.error Done.canceled.status)))
        call.contents
      rw [next, put]
      exact .ends .finishing
  | ends ends =>
      subst stage put
      exact .ends (ends.go sameWire draining.stays (by decide))

/-! ## After the first message -/

section Leaving

variable (known : List String) (request : HealthCheckRequest) (wire : WireFormat)

/-- What a watch tells before a good end. -/
def heard : List ServingStatus :=
  if request.service.isEmpty then [.serving, .notServing]
  else if known.contains request.service then [.serving]
  else [.serviceUnknown]

theorem heard_eq : heard known request =
    first known request false :: if request.service.isEmpty then [.notServing] else [] := by
  unfold heard first status?
  split
  · rfl
  · split <;> rfl

theorem length_heard : (heard known request).length ≤ 2 := by
  unfold heard
  split
  · exact Nat.le_refl _
  · split <;> exact Nat.le_succ _

/-- The steps of a watch after it was woken by the end of the call. -/
def stepsLeft : Nat := if request.service.isEmpty then 6 else 3

/-- The way of a watch that the drain finds at its first message or behind it. -/
inductive Leaving : Nat → Stage HealthCheckRequest HealthCheckResponse → List ResponseFrame → Prop
  | placing {pending : Pending HealthCheckRequest HealthCheckResponse}
      (next : pending.next = told request) :
      Leaving (stepsLeft request + 3)
        (.placing (frame wire (first known request false)) pending true)
        []
  | turning : Leaving (stepsLeft request + 2) (.going (.onDone (left request)))
      [frame wire (first known request false)]
  | waiting : Leaving (stepsLeft request + 1) (.untilDone (left request))
      [frame wire (first known request false)]
  | woken : Leaving (stepsLeft request) (.going (left request .canceled))
      [frame wire (first known request false)]
  | telling (isWhole : request.service.isEmpty = true) :
      Leaving 5 (.going (.onSendFinal (.of .notServing) fun _ => .finish (.ok Headers.empty)))
        [frame wire (first known request false)]
  | delivering (isWhole : request.service.isEmpty = true)
      {pending : Pending HealthCheckRequest HealthCheckResponse}
      (next : pending.next = fun _ => .finish (.ok Headers.empty)) :
      Leaving 4 (.delivering (frame wire .notServing) pending)
        [frame wire (first known request false)]
  | ends {steps : Nat} {stage : Stage HealthCheckRequest HealthCheckResponse}
      {frames : List ResponseFrame}
      (ends : Streaming.Ends wire ((heard known request).map (frame wire)) (.ok Headers.empty) steps
        stage frames) :
      Leaving steps stage frames

end Leaving

theorem Leaving.go (draining : call.exchange.IsDraining) (sameWire : call.exchange.wire = wire)
    (leaving : Leaving known request wire steps call.stage call.contents) :
    Leaving known request wire (steps - 1) call.go.stage call.go.contents := by
  generalize stage : call.stage = current at leaving
  generalize put : call.contents = frames at leaving
  cases leaving with
  | @placing pending next =>
      -- The task looked before the drain and does not look again, so its message still goes out.
      rw [Streaming.go, stage]
      dsimp only
      rw [Streaming.offer_of_few draining.stays (by rw [put]; decide)]
      change Leaving known request wire (stepsLeft request + 2) (.going (pending.next (.ok ())))
        (call.exchange.put _).outbound.contents
      rw [Streaming.contents_put, put, next]
      exact .turning
  | turning =>
      rw [Streaming.go, stage]
      exact put ▸ .waiting
  | waiting =>
      rw [Streaming.go, stage]
      dsimp only
      rw [draining.done?]
      exact put ▸ .woken
  | woken =>
      rw [Streaming.go, stage, left, stepsLeft]
      cases isWhole : request.service.isEmpty with
      | true =>
          rw [if_pos rfl]
          dsimp only [Streaming.proceed]
          rw [draining.draining]
          exact put ▸ .telling isWhole
      | false =>
          rw [if_neg Bool.false_ne_true, if_neg Bool.false_ne_true]
          have all : (heard known request).map (frame wire) = call.contents := by
            rw [heard_eq, isWhole, put]
            rfl
          exact .ends (all ▸ .ending)
  | telling isWhole =>
      rw [Streaming.go, stage]
      dsimp only [Streaming.proceed]
      rw [Streaming.begin, frameOf_state, sameWire]
      exact put ▸ .delivering isWhole rfl
  | @delivering isWhole pending next =>
      rw [Streaming.go, stage]
      dsimp only
      rw [Streaming.offer_of_few draining.stays (by rw [put]; exact (by decide : 1 < 16))]
      change Leaving known request wire 3 (.going (pending.next (.ok ())))
        (call.exchange.put _).outbound.contents
      rw [Streaming.contents_put, put, next]
      have all : (heard known request).map (frame wire) =
          [frame wire (first known request false), frame wire .notServing] := by
        rw [heard_eq, if_pos isWhole]
        rfl
      exact .ends (all ▸ .finishing)
  | ends ends =>
      subst stage put
      refine .ends (ends.go sameWire draining.stays ?_)
      rw [List.length_map]
      exact Nat.lt_of_le_of_lt (length_heard known request) (by decide)

/-! ## The drain -/

theorem Failing.accounts {stage : Stage HealthCheckRequest HealthCheckResponse}
    {frames : List ResponseFrame} (failing : Failing known request wire steps stage frames) :
    Streaming.Accounts [.endOfStream wire (.error Done.canceled.status)] steps stage frames := by
  cases failing with
  | asking => exact ⟨List.nil_prefix, by simp, by simp⟩
  | telling state => exact ⟨List.nil_prefix, by simp, by simp⟩
  | looking next state => exact ⟨List.nil_prefix, by simp, by simp⟩
  | ends ends => exact ends.accounts

theorem Leaving.accounts {stage : Stage HealthCheckRequest HealthCheckResponse}
    {frames : List ResponseFrame} (leaving : Leaving known request wire steps stage frames) :
    Streaming.Accounts
      ((heard known request).map (frame wire) ++ [.endOfStream wire (.ok Headers.empty)])
      steps stage frames := by
  have stepsLeft_pos : stepsLeft request ≠ 0 := by
    rw [stepsLeft]
    split <;> decide
  have isFront : [frame wire (first known request false)] <+:
      (heard known request).map (frame wire) ++ [.endOfStream wire (.ok Headers.empty)] := by
    rw [heard_eq, List.map_cons, List.cons_append]
    exact List.prefix_append [_] _
  cases leaving with
  | placing next => exact ⟨List.nil_prefix, by simp, by simp⟩
  | turning => exact ⟨isFront, by simp, by simp⟩
  | waiting => exact ⟨isFront, by simp, by simp⟩
  | woken => exact ⟨isFront, by simp, fun isZero => absurd isZero stepsLeft_pos⟩
  | telling isWhole => exact ⟨isFront, by simp, by simp⟩
  | delivering isWhole next => exact ⟨isFront, by simp, by simp⟩
  | ends ends => exact ends.accounts

/-- The response of a watch that the drain finds after some steps of its task. -/
def response (known : List String) (request : HealthCheckRequest) (wire : WireFormat)
    (steps : Nat) : List ResponseFrame :=
  if steps < 3 then [.endOfStream wire (.error Done.canceled.status)]
  else (heard known request).map (frame wire) ++ [.endOfStream wire (.ok Headers.empty)]

theorem Course.failing {stage : Stage HealthCheckRequest HealthCheckResponse}
    {frames : List ResponseFrame} (early : 3 ≤ steps)
    (course : Course known request wire steps stage frames) :
    Failing known request wire (steps + 1) stage frames := by
  cases course with
  | asking => exact .asking
  | telling => exact .telling _
  | looking next => exact .looking next _
  | placing | turning | waiting => omega

theorem Course.leaving {stage : Stage HealthCheckRequest HealthCheckResponse}
    {frames : List ResponseFrame} (late : steps < 3)
    (course : Course known request wire steps stage frames) :
    Leaving known request wire (stepsLeft request + 1 + steps) stage frames := by
  cases course with
  | asking | telling | looking _ => omega
  | placing next => exact .placing next
  | turning => exact .turning
  | waiting => exact .waiting

/-- The drain cuts a watch off before its third step, and lets it go on from there. -/
theorem accounts_of_drain {taken : Nat} (draining : call.exchange.IsDraining)
    (sameWire : call.exchange.wire = wire)
    (course : Course known request wire (5 - taken) call.stage call.contents)
    (moves : List (Move HealthCheckRequest)) (patient : ∀ move ∈ moves, move.isPatient = true) :
    (call.run moves).exchange.outbound.isGone = false ∧
      Streaming.Accounts (response known request wire taken) (9 - moves.countP Move.isGo)
        (call.run moves).stage (call.run moves).contents := by
  have lasts : ∀ {before after : Exchange}, (before.IsDraining ∧ before.wire = wire) →
      before.Patient after → after.IsDraining ∧ after.wire = wire :=
    fun kind patient => ⟨kind.1.of_patient patient, patient.wire.trans kind.2⟩
  by_cases early : taken < 3
  · obtain ⟨⟨drainingThen, _⟩, failing⟩ := Streaming.account_run lasts
      (fun kind failing => Failing.go kind.1 kind.2 failing) ⟨draining, sameWire⟩
      (course.failing (by omega)) moves patient
    rw [response, if_pos early]
    exact ⟨drainingThen.stays, failing.accounts.mono (by omega)⟩
  · have atMost : stepsLeft request ≤ 6 := by
      rw [stepsLeft]
      split <;> decide
    obtain ⟨⟨drainingThen, _⟩, leaving⟩ := Streaming.account_run lasts
      (fun kind leaving => Leaving.go kind.1 kind.2 leaving) ⟨draining, sameWire⟩
      (course.leaving (by omega)) moves patient
    rw [response, if_neg early]
    exact ⟨drainingThen.stays, leaving.accounts.mono (by omega)⟩

theorem length_response (known : List String) (request : HealthCheckRequest) (wire : WireFormat)
    (steps : Nat) : (response known request wire steps).length ≤ 3 := by
  unfold response
  split
  · exact Nat.le_add_left 1 2
  · rw [List.length_append, List.length_map]
    exact Nat.add_le_add_right (length_heard known request) 1

/-- What a caller has of a drained watch after some moves, and what it has when it reads on. -/
theorem hears_of_drain {taken : Nat} (orderly : call.Orderly) (draining : call.exchange.IsDraining)
    (sameWire : call.exchange.wire = wire)
    (course : Course known request wire (5 - taken) call.stage call.contents)
    (moves : List (Move HealthCheckRequest)) (patient : ∀ move ∈ moves, move.isPatient = true) :
    let answer := response known request wire taken
    (call.run moves).exchange.outbound.received <+: answer ∧
    ((call.run moves).exchange.outbound.endedAt.isSome →
      (call.run moves).exchange.outbound.received = answer) ∧
    (9 ≤ moves.countP Move.isGo →
      let last := (call.run moves).run (List.replicate 4 .read)
      last.exchange.outbound.endedAt.isSome ∧ last.exchange.outbound.received = answer) := by
  intro answer
  have hears (moves : List (Move HealthCheckRequest))
      (patient : ∀ move ∈ moves, move.isPatient = true) :=
    accounts_of_drain draining sameWire course moves patient
  obtain ⟨stays, accounts⟩ := hears moves patient
  obtain ⟨takes, takesAll⟩ := (orderly.run moves).received_of_accounts accounts
  refine ⟨takes, takesAll, fun enough => ?_⟩
  let reads : List (Move HealthCheckRequest) := List.replicate 4 .read
  have ends : ((call.run moves).run reads).exchange.outbound.endedAt.isSome := by
    rw [Nat.sub_eq_zero_of_le enough] at accounts
    exact (orderly.run moves).endedAt_of_accounts accounts stays
      (Nat.lt_succ_of_le (length_response known request wire taken))
  have sameThen : (call.run moves).run reads = call.run (moves ++ reads) :=
    List.foldl_append.symm
  have patientThen : ∀ move ∈ moves ++ reads, move.isPatient = true := by
    intro move member
    rcases List.mem_append.mp member with earlier | isRead
    · exact patient move earlier
    · rw [List.eq_of_mem_replicate isRead]
      rfl
  obtain ⟨_, accountsThen⟩ := hears (moves ++ reads) patientThen
  obtain ⟨_, takesAllThen⟩ := (orderly.run (moves ++ reads)).received_of_accounts accountsThen
  refine ⟨ends, ?_⟩
  rw [sameThen] at ends ⊢
  exact takesAllThen ends

/-- A patient caller of a watch without a deadline, however its reads, the steps of the task and the
drain follow one another: with fewer than three steps before the drain it is told that the call was
cancelled and hears no state; with three or more it hears what the watch tells and then a good
end. -/
theorem watch_hears_drain (known : List String) (request : HealthCheckRequest)
    (exchange : Exchange) (caller : Caller) (before after : List (Move HealthCheckRequest))
    (unlimited : exchange.cancellation.deadline = none)
    (notCancelled : exchange.cancellation.cancelledAt = none)
    (notDraining : exchange.drainAt = none)
    (patientBefore : ∀ move ∈ before, move.isPatient = true)
    (patientAfter : ∀ move ∈ after, move.isPatient = true) :
    let call := (Streaming.start exchange caller (watch known request)).run
      (before ++ .drain :: after)
    let answer := response known request exchange.wire (before.countP Move.isGo)
    (∀ state, Payload.decode exchange.wire.codec (payload exchange.wire.codec state) =
      .ok (HealthCheckResponse.of state)) ∧
    call.exchange.outbound.received <+: answer ∧
    (call.exchange.outbound.endedAt.isSome → call.exchange.outbound.received = answer) ∧
    (9 ≤ after.countP Move.isGo →
      let last := call.run (List.replicate 4 .read)
      last.exchange.outbound.endedAt.isSome ∧ last.exchange.outbound.received = answer) := by
  intro call answer
  let start : Watching := Streaming.start exchange caller (watch known request)
  let drained : Watching := (start.run before).step .drain
  have isOpen : start.exchange.IsOpen :=
    ⟨unlimited, notCancelled, notDraining, decide_eq_false (Caller.next_ne_gone _ _)⟩
  have begins : Course known request exchange.wire 5 start.stage start.contents := .asking
  have lasts : ∀ {before after : Exchange}, (before.IsOpen ∧ before.wire = exchange.wire) →
      before.Patient after → after.IsOpen ∧ after.wire = exchange.wire :=
    fun kind patient => ⟨kind.1.of_patient patient, patient.wire.trans kind.2⟩
  obtain ⟨⟨openThen, sameWire⟩, course⟩ := Streaming.account_run lasts
    (fun kind course => Course.go kind.1 kind.2 course) ⟨isOpen, rfl⟩ begins before patientBefore
  have orderly : drained.Orderly :=
    ((Streaming.orderly_start exchange caller _).run before).step .drain
  have same : call = drained.run after := by
    simp [call, start, drained, Streaming.run]
  rw [same]
  exact ⟨decode_payload _, @hears_of_drain _ _ exchange.wire drained _ orderly openThen.drain
    sameWire course after patientAfter⟩

/-- A call of which the request has come. -/
def asked : Exchange where
  wire := .grpc .proto
  cancellation := .never
  inbound := Inbound.ofBody ⟨[], .complete⟩
  outbound := Outbound.unheard

/-- A drain between the second step and the third leaves the watcher of the whole server without a
state; one that finds the task waiting does not. -/
theorem watch_hears_drain_asked :
    let watching : Watching := Streaming.start asked {} (watch [] ⟨""⟩)
    let rest : List (Move HealthCheckRequest) := List.replicate 9 .go
    let reads : List (Move HealthCheckRequest) := List.replicate 4 .read
    ((watching.run ([.go, .go] ++ .drain :: rest)).run reads).exchange.outbound.received =
      [.endOfStream asked.wire (.error Done.canceled.status)] ∧
    ((watching.run ([.go, .go, .go, .go, .read, .go] ++ .drain :: rest)).run
        reads).exchange.outbound.received =
      [frame asked.wire .serving, frame asked.wire .notServing,
        .endOfStream asked.wire (.ok Headers.empty)] := by
  refine ⟨((watch_hears_drain [] ⟨""⟩ asked {} [.go, .go] (List.replicate 9 .go) rfl rfl rfl
    (by decide) (by decide)).2.2.2 (by decide)).2, ?_⟩
  exact ((watch_hears_drain [] ⟨""⟩ asked {} [.go, .go, .go, .go, .read, .go] (List.replicate 9 .go)
    rfl rfl rfl (by decide) (by decide)).2.2.2 (by decide)).2

end RpcEcho.Health
